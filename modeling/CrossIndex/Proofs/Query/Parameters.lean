/-
The formal parameters of a subprogram. They are listed once for each relation that leads to them, while the other
components of an entity are listed once each, where their smallest order puts them. Main statement: the parameters that
have not been listed before are exactly those components in their order, so each parameter is listed once exactly if
no two relations lead to it; and the subprogram of a listed parameter is there and lists it.
-/
import CrossIndex.Proofs.Query.Navigation
import CrossIndex.Proofs.Update.Intake

namespace CrossIndex

namespace Store

/-- The order of relations by their order and then by target. -/
def byOrder : RelationRow → RelationRow → Ordering :=
  compareLex (compareOn RelationRow.order) (compareOn RelationRow.target)

/-- The order of entities by the smallest order of the relations to them and then by id. -/
def byLeastOrder (rows : List RelationRow) : Entity → Entity → Ordering :=
  compareLex (compareOn fun e => leastOrder rows e.id) (compareOn Entity.id)

/-- The entities of the formal parameters, as they are listed. -/
def profile (s : Store) (id : Int) : List Entity :=
  (s.formalParameters id).map Parameter.entity

/-- How the formal parameters of an entity are listed: one for each relation; those that have not been listed before in
the order of the other components, which is the whole list exactly if no two relations lead to one parameter. -/
structure Profiled (s : Store) (id : Int) : Prop where
  all : (s.formalParameters id).Perm
    ((s.relationsFrom id "has_parameter").map fun r => ⟨Entity.ofId r.target, r.parameterKind.getD .input⟩)
  targets : ∀ e, e ∈ s.profile id ↔ ∃ j, s.Relates "has_parameter" id j ∧ Entity.ofId j = e
  firsts : Closure.firsts (s.profile id) = s.relatedFrom id "has_parameter"
  once : (s.profile id).Nodup ↔ ((s.relationsFrom id "has_parameter").map RelationRow.target).Nodup
  exact : s.profile id = s.relatedFrom id "has_parameter" ↔
    ((s.relationsFrom id "has_parameter").map RelationRow.target).Nodup
  owned : ∀ e ∈ s.profile id, (s.parameterOf e.id).isNone = false ∧ e ∈ s.profile (s.parameterOf e.id).id

instance : Std.TransCmp byOrder :=
  inferInstanceAs (Std.TransCmp (compareLex (compareOn RelationRow.order) (compareOn RelationRow.target)))

instance (rows : List RelationRow) : Std.TransCmp (byLeastOrder rows) :=
  inferInstanceAs (Std.TransCmp (compareLex (compareOn fun e : Entity => leastOrder rows e.id) (compareOn Entity.id)))

/-! ## Smallest orders -/

variable {rows rows' : List RelationRow} {r : RelationRow} {i o : Int}

theorem leastOrder_eq_some : leastOrder rows i = some o ↔
    (∃ r ∈ rows, r.target = i ∧ r.order = o) ∧ ∀ r ∈ rows, r.target = i → o ≤ r.order := by
  simp only [leastOrder, List.min?_eq_some_iff, List.mem_map, List.mem_filter, beq_iff_eq]
  constructor
  · rintro ⟨⟨r, ⟨hr, hi⟩, ho⟩, hle⟩
    exact ⟨⟨r, hr, hi, ho⟩, fun r' hr' hi' => hle _ ⟨r', ⟨hr', hi'⟩, rfl⟩⟩
  · rintro ⟨⟨r, hr, hi, ho⟩, hle⟩
    refine ⟨⟨r, ⟨hr, hi⟩, ho⟩, ?_⟩
    rintro _ ⟨r', ⟨hr', hi'⟩, rfl⟩
    exact hle r' hr' hi'

theorem leastOrder_congr (h : ∀ r, r ∈ rows ↔ r ∈ rows') (i : Int) : leastOrder rows i = leastOrder rows' i := by
  ext o
  simp only [leastOrder_eq_some, h]

theorem leastOrder_cons_of_ne (h : r.target ≠ i) : leastOrder (r :: rows) i = leastOrder rows i := by
  simp [leastOrder, h]

theorem exists_leastOrder (h : r ∈ rows) :
    ∃ r' ∈ rows, r'.target = r.target ∧ leastOrder rows r.target = some r'.order := by
  have hne : (rows.filter fun r' => r'.target == r.target).map RelationRow.order ≠ [] :=
    List.ne_nil_of_mem (List.mem_map_of_mem (List.mem_filter.2 ⟨h, beq_self_eq_true _⟩))
  obtain ⟨o, ho⟩ := Option.ne_none_iff_exists'.1 (mt List.min?_eq_none_iff.1 hne)
  obtain ⟨r', hr', htarget, rfl⟩ := (leastOrder_eq_some.1 ho).1
  exact ⟨r', hr', htarget, ho⟩

/-! ## First occurrences in sorted rows -/

/-- In sorted rows the first relation to a target has the smallest order. -/
theorem firsts_sorted : ∀ {rows : List RelationRow}, (rows.Pairwise fun a b => (byOrder a b).isLE) →
    (Closure.firsts (rows.map fun r => Entity.ofId r.target)).Pairwise fun a b => (byLeastOrder rows a b).isLE
  | [], _ => .nil
  | r :: rows, h => by
    obtain ⟨hr, hrows⟩ := List.pairwise_cons.1 h
    have hother : ∀ e ∈ (Closure.firsts (rows.map fun r => Entity.ofId r.target)).filter
        (fun e => !LawfulElement.same (Entity.ofId r.target) e), r.target ≠ e.id ∧ ∃ r' ∈ rows, r'.target = e.id := by
      intro e he
      obtain ⟨he, hne⟩ := List.mem_filter.1 he
      obtain ⟨r', hr', rfl⟩ := List.mem_map.1 (Closure.mem_of_mem_firsts he)
      exact ⟨by simpa [LawfulElement.same, Entity.same, Entity.ofId] using hne, r', hr', rfl⟩
    refine List.pairwise_cons.2 ⟨fun e he => ?_, ((firsts_sorted hrows).filter _).imp_of_mem fun {a b} ha hb hle => ?_⟩
    · obtain ⟨hne, r', hr', htarget⟩ := hother e he
      obtain ⟨q, hq, hqtarget, hleast⟩ := exists_leastOrder hr'
      have hfirst : leastOrder (r :: rows) r.target = some r.order := by
        refine leastOrder_eq_some.2 ⟨⟨r, List.mem_cons_self, rfl, rfl⟩, fun r'' hr'' _ => ?_⟩
        rcases List.mem_cons.1 hr'' with rfl | hr''
        · exact Int.le_refl _
        · exact Std.isLE_compare.1 (Ordering.isLE_left_of_isLE_then (hr r'' hr''))
      have hkeys : byLeastOrder (r :: rows) (Entity.ofId r.target) e = byOrder r q := by
        show (compare (leastOrder (r :: rows) r.target) (leastOrder (r :: rows) e.id)).then (compare r.target e.id) = _
        rw [hfirst, leastOrder_cons_of_ne hne, ← htarget, hleast, ← hqtarget]
        rfl
      rw [hkeys]
      exact hr q hq
    · show ((compare (leastOrder (r :: rows) a.id) (leastOrder (r :: rows) b.id)).then (compare a.id b.id)).isLE
      rw [leastOrder_cons_of_ne (hother a ha).1, leastOrder_cons_of_ne (hother b hb).1]
      exact hle

/-! ## The parameters and the other components -/

variable {s : Store} {id : Int} {e : Entity}

theorem formalParameters_perm (s : Store) (id : Int) : (s.formalParameters id).Perm
    ((s.relationsFrom id "has_parameter").map fun r => ⟨Entity.ofId r.target, r.parameterKind.getD .input⟩) :=
  (List.mergeSort_perm _ _).map _

theorem profile_perm (s : Store) (id : Int) :
    (s.profile id).Perm ((s.relationsFrom id "has_parameter").map fun r => Entity.ofId r.target) := by
  have h := (s.formalParameters_perm id).map Parameter.entity
  rwa [List.map_map] at h

theorem mem_profile_iff : e ∈ s.profile id ↔ ∃ j, s.Relates "has_parameter" id j ∧ Entity.ofId j = e := by
  simp only [(s.profile_perm id).mem_iff, List.mem_map, relationsFrom, List.mem_filter, Bool.and_eq_true, beq_iff_eq,
    Relates]
  constructor
  · rintro ⟨r, ⟨hr, hsource, hkind⟩, he⟩
    exact ⟨r.target, ⟨r, hr, hsource, rfl, hkind⟩, he⟩
  · rintro ⟨_, ⟨r, hr, hsource, rfl, hkind⟩, he⟩
    exact ⟨r, ⟨hr, hsource, hkind⟩, he⟩

theorem mem_relatedFrom_iff {kind : String} :
    e ∈ s.relatedFrom id kind ↔ ∃ j, s.Relates kind id j ∧ Entity.ofId j = e := by
  have h := s.relatedFrom_follows kind id e
  simpa only [ClosureElement.target, id_eq, exists_eq_right] using h

/-- Handles that are both exact are the same only if they are equal. -/
theorem eq_of_exact {a b : Entity} (ha : ∃ i, Entity.ofId i = a) (hb : ∃ i, Entity.ofId i = b) (h : a.id = b.id) :
    a = b := by
  obtain ⟨i, rfl⟩ := ha
  obtain ⟨j, rfl⟩ := hb
  exact congrArg Entity.ofId h

theorem mem_firsts_profile_iff : e ∈ Closure.firsts (s.profile id) ↔ e ∈ s.profile id := by
  refine ⟨Closure.mem_of_mem_firsts, fun he => ?_⟩
  obtain ⟨e', he', hsame⟩ := Closure.exists_mem_firsts he
  obtain ⟨i, -, hi⟩ := mem_profile_iff.1 he
  obtain ⟨j, -, hj⟩ := mem_profile_iff.1 (Closure.mem_of_mem_firsts he')
  have hid : e'.id = e.id := by simpa [LawfulElement.same, Entity.same] using hsame
  rwa [← eq_of_exact ⟨j, hj⟩ ⟨i, hi⟩ hid]

theorem nodup_firsts (es : List Entity) : (Closure.firsts es).Nodup := by
  refine (Closure.firsts_pairwise es).imp fun {a b} h => ?_
  rintro rfl
  rw [LawfulElement.refl a] at h
  cases h

theorem ofId_injective : Function.Injective Entity.ofId :=
  fun _ _ h => congrArg Entity.id h

theorem nodup_relatedFrom (s : Store) (id : Int) (kind : String) : (s.relatedFrom id kind).Nodup := by
  refine List.Nodup.map ofId_injective ((List.mergeSort_perm _ _).nodup_iff.2 ?_)
  exact (IdSet.pairwise_ofList _).imp Int.ne_of_lt

theorem relatedFrom_sorted (s : Store) (id : Int) (kind : String) :
    (s.relatedFrom id kind).Pairwise fun a b => (byLeastOrder (s.relationsFrom id kind) a b).isLE :=
  List.pairwise_map.2
    (@pairwise_mergeSort_isLE _ (compareLex (compareOn (leastOrder (s.relationsFrom id kind))) compare) _ _)

theorem firsts_profile_sorted (s : Store) (id : Int) : (Closure.firsts (s.profile id)).Pairwise fun a b =>
    (byLeastOrder (s.relationsFrom id "has_parameter") a b).isLE := by
  have hsorted : ((s.relationsFrom id "has_parameter").mergeSort fun a b => (byOrder a b).isLE).Pairwise
      fun a b => (byOrder a b).isLE := pairwise_mergeSort_isLE _
  have hprofile : s.profile id = ((s.relationsFrom id "has_parameter").mergeSort fun a b => (byOrder a b).isLE).map
      fun r => Entity.ofId r.target := List.map_map
  have hleast : byLeastOrder ((s.relationsFrom id "has_parameter").mergeSort fun a b => (byOrder a b).isLE) =
      byLeastOrder (s.relationsFrom id "has_parameter") := by
    unfold byLeastOrder
    rw [funext fun e : Entity => leastOrder_congr (fun r => List.mem_mergeSort) e.id]
  rw [hprofile, ← hleast]
  exact firsts_sorted hsorted

/-- The parameters that have not been listed before are those components as all others are listed. -/
theorem firsts_profile (s : Store) (id : Int) : Closure.firsts (s.profile id) = s.relatedFrom id "has_parameter" := by
  have hmem : ∀ e, e ∈ Closure.firsts (s.profile id) ↔ e ∈ s.relatedFrom id "has_parameter" := fun e => by
    rw [mem_firsts_profile_iff, mem_profile_iff, mem_relatedFrom_iff]
  refine List.Perm.eq_of_pairwise (fun a b ha hb hab hba => ?_) (s.firsts_profile_sorted id)
    (s.relatedFrom_sorted id "has_parameter")
    ((List.perm_ext_iff_of_nodup (nodup_firsts _) (s.nodup_relatedFrom id _)).2 hmem)
  obtain ⟨i, -, hi⟩ := mem_profile_iff.1 (Closure.mem_of_mem_firsts ha)
  obtain ⟨j, -, hj⟩ := mem_relatedFrom_iff.1 hb
  have heq : byLeastOrder (s.relationsFrom id "has_parameter") a b = .eq := Std.OrientedCmp.isLE_antisymm hab hba
  rw [byLeastOrder, compareLex_eq_eq] at heq
  exact eq_of_exact ⟨i, hi⟩ ⟨j, hj⟩ (Std.LawfulEqOrd.eq_of_compare heq.2)

/-! ## Each parameter once -/

theorem nodup_profile_iff :
    (s.profile id).Nodup ↔ ((s.relationsFrom id "has_parameter").map RelationRow.target).Nodup := by
  have hmap : ((s.relationsFrom id "has_parameter").map fun r => Entity.ofId r.target) =
      ((s.relationsFrom id "has_parameter").map RelationRow.target).map Entity.ofId := by
    rw [List.map_map]
    rfl
  rw [(s.profile_perm id).nodup_iff, hmap, List.nodup_map_iff ofId_injective]

theorem profile_eq_iff : s.profile id = s.relatedFrom id "has_parameter" ↔
    ((s.relationsFrom id "has_parameter").map RelationRow.target).Nodup := by
  rw [← nodup_profile_iff]
  constructor
  · intro h
    rw [h]
    exact s.nodup_relatedFrom id _
  · intro h
    rw [← firsts_profile, Closure.firsts_eq_self (h.imp_of_mem fun {a b} ha hb hne => ?_)]
    obtain ⟨i, -, hi⟩ := mem_profile_iff.1 ha
    obtain ⟨j, -, hj⟩ := mem_profile_iff.1 hb
    exact beq_eq_false_iff_ne.2 fun hid => hne (eq_of_exact ⟨i, hi⟩ ⟨j, hj⟩ hid)

/-- The subprogram of a listed parameter is there and lists it. -/
theorem parameterOf_owns (hs : s.Linked) (ha : s.Ascending) (he : e ∈ s.profile id) :
    (s.parameterOf e.id).isNone = false ∧ e ∈ s.profile (s.parameterOf e.id).id := by
  obtain ⟨j, hrelates, rfl⟩ := mem_profile_iff.1 he
  have hto : ∀ a, a ∈ s.relatedTo j "has_parameter" ↔ ∃ i, s.Relates "has_parameter" i j ∧ Entity.ofId i = a := by
    intro a
    have h := s.relatedTo_follows "has_parameter" j a
    simpa only [ClosureElement.target, id_eq, exists_eq_right, Function.swap] using h
  have hmem : s.parameterOf j ∈ s.relatedTo j "has_parameter" := by
    obtain ⟨first, rest, hlist⟩ := List.exists_cons_of_ne_nil (List.ne_nil_of_mem ((hto _).2 ⟨id, hrelates, rfl⟩))
    rw [parameterOf, hlist]
    exact List.mem_cons_self
  obtain ⟨i, howner, hi⟩ := (hto _).1 hmem
  show (s.parameterOf j).isNone = false ∧ Entity.ofId j ∈ s.profile (s.parameterOf j).id
  rw [← hi, Entity.isNone_eq_false]
  refine ⟨?_, mem_profile_iff.2 ⟨j, howner, rfl⟩⟩
  obtain ⟨r, hr, rfl, -, -⟩ := howner
  obtain ⟨owner, hmem, hid⟩ := (hs.relations r hr).source
  have hpos := ha.pos hmem
  show 0 ≤ r.source
  omega

/-- In every reachable store the formal parameters of an entity are listed once for each relation. Those that have not
been listed before are the components as all others are listed, and they are the whole list exactly if no two relations
lead to one parameter. The subprogram of a listed parameter is there and lists it. -/
theorem formalParameters_profiled {Canonical : (String → String) → Prop} (h : s.Reachable Canonical) (id : Int) :
    s.Profiled id where
  all := s.formalParameters_perm id
  targets _ := mem_profile_iff
  firsts := s.firsts_profile id
  once := nodup_profile_iff
  exact := profile_eq_iff
  owned _ he := parameterOf_owns h.sound.toLinked h.ascending he

/-- Two functions with a parameter each, and a second unit that records the parameter of the first function again. -/
def profileUnits : List UnitRecord :=
  [{ indexFile := "f.ali", stamp := 1, sourceFiles := ["f.ads"],
     entities := [⟨"F", "function", some ⟨"f.ads", 1, 10⟩, {}⟩, ⟨"X", "integer", some ⟨"f.ads", 1, 13⟩, {}⟩,
       ⟨"G", "function", some ⟨"f.ads", 2, 10⟩, {}⟩, ⟨"Y", "integer", some ⟨"f.ads", 2, 13⟩, {}⟩],
     relations := [⟨⟨"F", some ⟨"f.ads", 1, 10⟩⟩, ⟨"X", some ⟨"f.ads", 1, 13⟩⟩, "has_parameter", 1, none⟩,
       ⟨⟨"G", some ⟨"f.ads", 2, 10⟩⟩, ⟨"Y", some ⟨"f.ads", 2, 13⟩⟩, "has_parameter", 1, some .output⟩] },
   { indexFile := "g.ali", stamp := 1, sourceFiles := ["g.adb"],
     relations := [⟨⟨"F", some ⟨"f.ads", 1, 10⟩⟩, ⟨"X", some ⟨"f.ads", 1, 13⟩⟩, "has_parameter", 1, none⟩] }]

/-- The store of a database that has taken in these units. -/
def profileStore : Store :=
  (fresh.update Path.normalize {} (MemorySource.ofUnits profileUnits).toSource false none).store

theorem profileStore_profiled :
    ((profileStore.relationsFrom 1 "has_parameter").map RelationRow.target = [2, 2] ∧
        ¬ (profileStore.profile 1).Nodup) ∧
      (profileStore.profile 3).Nodup ∧ profileStore.Profiled 1 ∧ profileStore.Profiled 3 := by
  have hreach : Reachable (fun _ => True) profileStore := .update .fresh trivial fun _ h => by cases h
  have htargets : (profileStore.relationsFrom 1 "has_parameter").map RelationRow.target = [2, 2] ∧
      (profileStore.relationsFrom 3 "has_parameter").map RelationRow.target = [4] := by
    decide +kernel
  have hprofiled := formalParameters_profiled hreach
  refine ⟨⟨htargets.1, ?_⟩, ?_, hprofiled 1, hprofiled 3⟩
  · rw [(hprofiled 1).once, htargets.1]
    decide
  · rw [(hprofiled 3).once, htargets.2]
    decide

end Store

end CrossIndex
