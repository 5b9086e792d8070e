/-
Navigation forwards and backwards. Calls are read off the references, forwards by their scope and
backwards by their entity, and relations forwards by their source and backwards by their target; all of
these questions follow one relation between ids or its converse. Main statement: forward and backward
questions are converse to each other, in one step and over their closures, and call sites lead where calls
lead.
-/
import CrossIndex.Proofs.Closure.Reach
import CrossIndex.Proofs.Query.Stale

namespace CrossIndex

/-- A handle is among some entities, as an approximation or not. -/
def Entity.IsAmong (e : Entity) (es : List Entity) : Prop :=
  ∃ e' ∈ es, e'.same e = true

namespace Store

section Questions

variable {α : Type} [ClosureElement α]

/-- Drains the closure of a question, with no neighbours becoming due: what it emits, and what it is in the
end. -/
def closureOf (s : Store) (ask : Int → List α) (seed : Entity) : List α × Closure α :=
  Closure.collectAll (s.walker seed {} fun id => .ok (ask id))
    (Closure.start (s.walker seed {} fun id => .ok (ask id)) seed)

/-- A question answers with elements that point along a relation between ids. -/
def Follows (ask : Int → List α) (R : Int → Int → Prop) : Prop :=
  ∀ i e, (∃ a ∈ ask i, ClosureElement.target a = e) ↔ ∃ j, R i j ∧ Entity.ofId j = e

end Questions

/-- There is a call of the second entity within the first one. -/
def Calls (s : Store) (i j : Int) : Prop :=
  ∃ r ∈ s.references, r.scope = some i ∧ r.entity = j ∧ s.isCall r.kindId = true

/-- There is a relation of a kind from the first entity to the second one. -/
def Relates (s : Store) (kind : String) (i j : Int) : Prop :=
  ∃ r ∈ s.relations, r.source = i ∧ r.target = j ∧ r.kind = kind

variable {s : Store}

/-! ## What the questions follow -/

theorem follows_ofList {ids : Int → List Int} {R : Int → Int → Prop} (h : ∀ i j, j ∈ ids i ↔ R i j) :
    Follows (fun i => (IdSet.ofList (ids i)).map Entity.ofId) R := by
  intro i e
  show (∃ a ∈ (IdSet.ofList (ids i)).map Entity.ofId, a = e) ↔ _
  simp [h]

theorem calls_follows (s : Store) : Follows s.calls s.Calls := by
  refine follows_ofList fun i j => ?_
  simp only [callRows, List.mem_map, List.mem_filter, Bool.and_eq_true, beq_iff_eq, Calls]
  constructor
  · rintro ⟨r, ⟨hr, hscope, hcall⟩, hentity⟩
    exact ⟨r, hr, hscope, hentity, hcall⟩
  · rintro ⟨r, hr, hscope, hentity, hcall⟩
    exact ⟨r, ⟨hr, hscope, hcall⟩, hentity⟩

theorem callers_follows (s : Store) : Follows s.callers (Function.swap s.Calls) := by
  refine follows_ofList fun j i => ?_
  simp only [List.mem_filterMap, List.mem_filter, Bool.and_eq_true, beq_iff_eq, Function.swap, Calls]
  constructor
  · rintro ⟨r, ⟨hr, hentity, hcall⟩, hscope⟩
    exact ⟨r, hr, hscope, hentity, hcall⟩
  · rintro ⟨r, hr, hscope, hentity, hcall⟩
    exact ⟨r, ⟨hr, hentity, hcall⟩, hscope⟩

/-- The call sites within an entity are those of the calls within it, whatever their order. -/
theorem callSites_follows (s : Store) : Follows s.callSites s.Calls := by
  intro i e
  show (∃ a ∈ s.callSites i, a.entity = e) ↔ _
  simp only [callSites, sorted, List.mem_mergeSort, List.mem_map, callRows, List.mem_filter, Bool.and_eq_true,
    beq_iff_eq, Calls]
  constructor
  · rintro ⟨_, ⟨r, ⟨hr, hscope, hcall⟩, rfl⟩, rfl⟩
    exact ⟨r.entity, ⟨r, hr, hscope, rfl, hcall⟩, rfl⟩
  · rintro ⟨_, ⟨r, hr, hscope, rfl, hcall⟩, rfl⟩
    exact ⟨_, ⟨r, ⟨hr, hscope, hcall⟩, rfl⟩, rfl⟩

theorem relatedFrom_follows (s : Store) (kind : String) : Follows (s.relatedFrom · kind) (s.Relates kind) := by
  intro i e
  show (∃ a ∈ s.relatedFrom i kind, a = e) ↔ _
  simp only [relatedFrom, relationsFrom, List.mem_map, List.mem_mergeSort, IdSet.mem_ofList, List.mem_filter,
    Bool.and_eq_true, beq_iff_eq, Relates]
  constructor
  · rintro ⟨_, ⟨_, ⟨r, ⟨hr, hsource, hkind⟩, rfl⟩, rfl⟩, rfl⟩
    exact ⟨r.target, ⟨r, hr, hsource, rfl, hkind⟩, rfl⟩
  · rintro ⟨_, ⟨r, hr, hsource, rfl, hkind⟩, rfl⟩
    exact ⟨_, ⟨r.target, ⟨r, ⟨hr, hsource, hkind⟩, rfl⟩, rfl⟩, rfl⟩

theorem relatedTo_follows (s : Store) (kind : String) :
    Follows (s.relatedTo · kind) (Function.swap (s.Relates kind)) := by
  refine follows_ofList fun j i => ?_
  simp only [List.mem_map, List.mem_filter, Bool.and_eq_true, beq_iff_eq, Function.swap, Relates]
  constructor
  · rintro ⟨r, ⟨hr, htarget, hkind⟩, hsource⟩
    exact ⟨r, hr, hsource, htarget, hkind⟩
  · rintro ⟨r, hr, hsource, htarget, hkind⟩
    exact ⟨r, ⟨hr, htarget, hkind⟩, hsource⟩

/-! ## Closures of the questions -/

section Closures

variable {α : Type} [ClosureElement α] {ask : Int → List α} {R : Int → Int → Prop}

/-- A question only leads to entities that are there. -/
def Lands (s : Store) (R : Int → Int → Prop) : Prop :=
  ∀ i j, R i j → s.HasEntity j

omit [ClosureElement α] in
theorem around_eq_nil (s : Store) (seed : Entity) (ask : Int → List α) (i : Int) :
    (s.walker seed {} fun id => .ok (ask id)).around i = [] := by
  simp [walker, neighbours]

omit [ClosureElement α] in
theorem answers_eq (s : Store) (seed : Entity) (ask : Int → List α) (i : Int) :
    (s.walker seed {} fun id => .ok (ask id)).answers i = ask i :=
  rfl

theorem points_iff (s : Store) (seed : Entity) (h : Follows ask R) {i j : Int} :
    (s.walker seed {} fun id => .ok (ask id)).Points i j ↔ R i j := by
  unfold Walker.Points
  rw [answers_eq]
  constructor
  · rintro ⟨a, ha, rfl⟩
    obtain ⟨j, hR, he⟩ := (h i _).1 ⟨a, ha, rfl⟩
    rw [← he]
    exact hR
  · intro hR
    obtain ⟨a, ha, he⟩ := (h i _).2 ⟨j, hR, rfl⟩
    exact ⟨a, ha, by rw [he]; rfl⟩

theorem closureOf_drained [LawfulElement α] (seed : Entity) (h : Follows ask R) (hlands : s.Lands R) :
    Closure.Drained (s.walker seed {} fun id => .ok (ask id)) seed (s.closureOf ask seed).1
      (s.closureOf ask seed).2 := by
  refine Closure.collectAll_drained (Walker.bounded_of_points ?_ (around_eq_nil s seed ask) fun i j hp => ?_)
  · simp [walker]
  · obtain ⟨e, he, hid⟩ := hlands i j ((points_iff s seed h).1 hp)
    simp only [walker, IdSet.mem_ofList, List.mem_cons, List.mem_map]
    exact .inr ⟨e, he, hid⟩

/-- What a question leads to from a seed is a matter of the relation that it follows. -/
theorem reaches_iff (seed : Entity) (h : Follows ask R) {i : Int} :
    (s.walker seed {} fun id => .ok (ask id)).Reaches seed i ↔
      0 ≤ seed.id ∧ Relation.ReflTransGen (fun i j => 0 ≤ j ∧ R i j) seed.id i := by
  have hleads : (s.walker seed {} fun id => .ok (ask id)).Leads = fun i j => 0 ≤ j ∧ R i j := by
    funext i j
    simp only [Walker.Leads, points_iff s seed h, around_eq_nil, List.not_mem_nil, false_and, exists_false, or_false]
  rw [Walker.Reaches, hleads]

theorem mem_visited_closureOf [LawfulElement α] (seed : Entity) (h : Follows ask R) (hlands : s.Lands R) {i : Int} :
    i ∈ (s.closureOf ask seed).2.visited ↔
      0 ≤ seed.id ∧ Relation.ReflTransGen (fun i j => 0 ≤ j ∧ R i j) seed.id i :=
  ((closureOf_drained seed h hlands).visited i).trans (reaches_iff seed h)

/-- The emitted elements point, with exact handles, where the relation points from the expanded entities. -/
theorem target_closureOf [LawfulElement α] (seed : Entity) (h : Follows ask R) (hlands : s.Lands R) {e : Entity} :
    (∃ a ∈ (s.closureOf ask seed).1, ClosureElement.target a = e) ↔
      ∃ i ∈ (s.closureOf ask seed).2.visited, ∃ j, R i j ∧ Entity.ofId j = e := by
  have hd := closureOf_drained seed h hlands
  constructor
  · rintro ⟨a, ha, he⟩
    obtain ⟨i, hi, hanswer⟩ := hd.answered a ha
    exact ⟨i, (hd.visited i).2 hi, (h i e).1 ⟨a, hanswer, he⟩⟩
  · rintro ⟨i, hi, j, hR, rfl⟩
    obtain ⟨a, ha, hid⟩ := hd.target_iff.2 ⟨i, (hd.visited i).1 hi, (points_iff s seed h).2 hR⟩
    obtain ⟨i', -, hanswer⟩ := hd.answered a ha
    -- an answer points with an exact handle, so the id is all there is to it
    obtain ⟨j', -, hj'⟩ := (h i' _).1 ⟨a, hanswer, rfl⟩
    refine ⟨a, ha, ?_⟩
    rw [← hj'] at hid ⊢
    exact congrArg Entity.ofId hid

end Closures

/-! ## Forwards and backwards -/

theorem Linked.lands_calls (hs : s.Linked) : s.Lands s.Calls := by
  rintro i j ⟨r, hr, -, rfl, -⟩
  exact (hs.references r hr).entity

theorem Linked.lands_callers (hs : s.Linked) : s.Lands (Function.swap s.Calls) := by
  rintro j i ⟨r, hr, hscope, -, -⟩
  exact (hs.references r hr).scope i hscope

theorem Linked.lands_relates (hs : s.Linked) (kind : String) : s.Lands (s.Relates kind) := by
  rintro i j ⟨r, hr, -, rfl, -⟩
  exact (hs.relations r hr).target

theorem Linked.lands_related (hs : s.Linked) (kind : String) : s.Lands (Function.swap (s.Relates kind)) := by
  rintro j i ⟨r, hr, rfl, -, -⟩
  exact (hs.relations r hr).source

/-- Two questions lead the opposite way round between two entities, in one step and over their closures,
both of which come to an end. -/
structure Converse (s : Store) (forward backward : Int → List Entity) (x y : Entity) : Prop where
  step : y.IsAmong (forward x.id) ↔ x.IsAmong (backward y.id)
  ends : (s.closureOf forward x).2.current = none ∧ (s.closureOf backward y).2.current = none
  closure : y.IsAmong (s.closureOf forward x).1 ↔ x.IsAmong (s.closureOf backward y).1

theorem isAmong_iff {e : Entity} {es : List Entity} :
    e.IsAmong es ↔ ∃ a ∈ es, (ClosureElement.target a).id = e.id := by
  simp only [Entity.IsAmong, Entity.same, beq_iff_eq, ClosureElement.target, id_eq]

theorem Follows.isAmong_iff {ask : Int → List Entity} {R : Int → Int → Prop} (h : Follows ask R) {i : Int}
    {e : Entity} : e.IsAmong (ask i) ↔ R i e.id := by
  rw [Store.isAmong_iff]
  constructor
  · rintro ⟨a, ha, hid⟩
    obtain ⟨j, hR, he⟩ := (h i _).1 ⟨a, ha, rfl⟩
    rw [← he] at hid
    exact hid ▸ hR
  · intro hR
    obtain ⟨a, ha, he⟩ := (h i _).2 ⟨e.id, hR, rfl⟩
    exact ⟨a, ha, by rw [he]; rfl⟩

/-- Questions that follow a relation and its converse are converse. -/
theorem Follows.converse {forward backward : Int → List Entity} {R : Int → Int → Prop} (hf : Follows forward R)
    (hb : Follows backward (Function.swap R)) (hflands : s.Lands R) (hblands : s.Lands (Function.swap R)) {x y : Entity}
    (hx : 0 ≤ x.id) (hy : 0 ≤ y.id) : s.Converse forward backward x y where
  step := by
    rw [hf.isAmong_iff, hb.isAmong_iff]
  ends := ⟨(closureOf_drained x hf hflands).finished, (closureOf_drained y hb hblands).finished⟩
  closure := by
    rw [Store.isAmong_iff, Store.isAmong_iff]
    refine (closureOf_drained x hf hflands).converse (closureOf_drained y hb hblands) (around_eq_nil s x forward)
      (around_eq_nil s y backward) (fun i j => ?_) hx hy
    rw [points_iff s x hf, points_iff s y hb]

/-- The calls within an entity are its call sites without their places, in one step and over the closures. -/
structure SitesAgree (s : Store) (x : Entity) : Prop where
  ascending : ((s.calls x.id).map Entity.id).Pairwise (· < ·)
  entities : ∀ e, e ∈ s.calls x.id ↔ ∃ r ∈ s.callSites x.id, r.entity = e
  ends : (s.closureOf s.callSites x).2.current = none
  expanded : ∀ id, id ∈ (s.closureOf s.callSites x).2.visited ↔ id ∈ (s.closureOf s.calls x).2.visited
  emitted : ∀ e, e ∈ (s.closureOf s.calls x).1 ↔ ∃ r ∈ (s.closureOf s.callSites x).1, r.entity = e

theorem calls_ascending (s : Store) (id : Int) : ((s.calls id).map Entity.id).Pairwise (· < ·) := by
  have hids : (s.calls id).map Entity.id = IdSet.ofList ((s.callRows id).map ReferenceRow.entity) := by
    rw [calls, List.map_map]
    exact List.map_id _
  rw [hids]
  exact IdSet.pairwise_ofList _

theorem Linked.sitesAgree (hs : s.Linked) (x : Entity) : s.SitesAgree x := by
  have hexpanded : ∀ id, id ∈ (s.closureOf s.callSites x).2.visited ↔ id ∈ (s.closureOf s.calls x).2.visited := by
    intro id
    rw [mem_visited_closureOf x s.callSites_follows hs.lands_calls,
      mem_visited_closureOf x s.calls_follows hs.lands_calls]
  refine ⟨s.calls_ascending x.id, fun e => ?_, (closureOf_drained x s.callSites_follows hs.lands_calls).finished,
    hexpanded, fun e => ?_⟩
  · have hboth := (s.calls_follows x.id e).trans (s.callSites_follows x.id e).symm
    simpa only [ClosureElement.target, id_eq, exists_eq_right] using hboth
  · have hcalls := target_closureOf x s.calls_follows hs.lands_calls (e := e)
    have hsites := target_closureOf x s.callSites_follows hs.lands_calls (e := e)
    simp only [hexpanded] at hsites
    simpa only [ClosureElement.target, id_eq, exists_eq_right] using hcalls.trans hsites.symm

/-- In every reachable store, whichever kinds are registered, callers are the converse of calls and child
types that of parent types, in one step and over the closures, and call sites lead where calls lead. -/
theorem navigation_converse {Canonical : (String → String) → Prop} {s : Store} (h : Reachable Canonical s)
    {x y : Entity} (hx : x.isNone = false) (hy : y.isNone = false) :
    s.Converse s.calls s.callers x y ∧ s.SitesAgree x ∧ s.Converse s.parentTypes s.childTypes x y := by
  have hs := h.sound.toLinked
  have hx' := Entity.isNone_eq_false.1 hx
  have hy' := Entity.isNone_eq_false.1 hy
  refine ⟨s.calls_follows.converse s.callers_follows hs.lands_calls hs.lands_callers hx' hy', hs.sitesAgree x, ?_⟩
  exact (s.relatedFrom_follows "parent_type").converse (s.relatedTo_follows "parent_type")
    (hs.lands_relates "parent_type") (hs.lands_related "parent_type") hx' hy'

/-- Two procedures that call each other, one of them by references of a kind that is not a standard one, and
a type derived from another one. -/
def mutualUnit : UnitRecord where
  indexFile := "a.ali"
  stamp := 1
  sourceFiles := ["a.adb"]
  entities := [⟨"Even", "procedure", some ⟨"a.adb", 1, 11⟩, {}⟩, ⟨"Odd", "procedure", some ⟨"a.adb", 5, 11⟩, {}⟩,
    ⟨"Child", "type", some ⟨"a.adb", 9, 6⟩, {}⟩, ⟨"Parent", "type", some ⟨"a.adb", 8, 6⟩, {}⟩]
  references := [⟨⟨"Odd", some ⟨"a.adb", 5, 11⟩⟩, ⟨"a.adb", 2, 4⟩, 'v', some ⟨"Even", some ⟨"a.adb", 1, 11⟩⟩⟩,
    ⟨⟨"Odd", some ⟨"a.adb", 5, 11⟩⟩, ⟨"a.adb", 3, 4⟩, 'v', some ⟨"Even", some ⟨"a.adb", 1, 11⟩⟩⟩,
    ⟨⟨"Even", some ⟨"a.adb", 1, 11⟩⟩, ⟨"a.adb", 6, 4⟩, 's', some ⟨"Odd", some ⟨"a.adb", 5, 11⟩⟩⟩]
  relations := [⟨⟨"Child", some ⟨"a.adb", 9, 6⟩⟩, ⟨"Parent", some ⟨"a.adb", 8, 6⟩⟩, "parent_type", 0, none⟩]

/-- The store of a database that has taken in that unit, before the kind of those references is registered. -/
def mutualStore : Store :=
  (fresh.update Path.normalize {} (MemorySource.ofUnits [mutualUnit]).toSource false none).store

/-- That store once the kind is registered as one of calls. -/
def virtualStore : Store :=
  mutualStore.registerKind ⟨'v', "virtual call", { showInCallgraph := true }⟩

theorem virtualStore_converse :
    (mutualStore.calls 1 = [] ∧ virtualStore.calls 1 = [Entity.ofId 2] ∧ (virtualStore.callRows 1).length = 2 ∧
      (virtualStore.closureOf virtualStore.calls (Entity.ofId 1)).1 = [Entity.ofId 2, Entity.ofId 1]) ∧
    virtualStore.Converse virtualStore.calls virtualStore.callers (Entity.ofId 1) (Entity.ofId 2) ∧
      virtualStore.SitesAgree (Entity.ofId 1) ∧
      virtualStore.Converse virtualStore.parentTypes virtualStore.childTypes (Entity.ofId 1) (Entity.ofId 2) := by
  have hreach : Reachable (fun _ => True) virtualStore := .register (.update .fresh trivial fun _ h => by cases h)
  refine ⟨?_, navigation_converse hreach (by decide) (by decide)⟩
  decide +kernel

end Store

end CrossIndex
