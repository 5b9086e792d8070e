/-
What a write leaves of the records of a unit. The rows of the unit are added first; then the entities go
that it owned and does not keep, and with them every row that names them, rows just added included.
Main statement: a write keeps the records of the unit one to one exactly if it mentions no such entity,
and loses of them otherwise what names one.
-/
import CrossIndex.Proofs.Store.Reachable
import CrossIndex.Proofs.Store.Trace
import CrossIndex.Source.Memory

namespace CrossIndex

/-- A reference whose scope is left out if it is gone. -/
def ReferenceRecord.without (gone : EntityKey → Bool) (r : ReferenceRecord) : ReferenceRecord :=
  { r with scope := r.scope.filter fun k => !gone k }

namespace Store

variable {canon : String → String} {s t : Store} {u : UnitRecord}

instance (canon : String → String) (s : Store) (u : UnitRecord) (k : EntityKey) : Decidable (s.Drops canon u k) :=
  have : Decidable (∃ v, s.view? k = some v ∧ v.owner = some u.indexFile) :=
    decidable_of_iff ((s.view? k).any fun v => v.owner == some u.indexFile) (by simp [Option.any_eq_true])
  have : Decidable (u.Touches canon k) := inferInstanceAs (Decidable (_ ∈ _))
  have : Decidable (u.Lists canon k) := inferInstanceAs (Decidable (_ = _))
  inferInstanceAs (Decidable (_ ∧ ¬ (_ ∧ _)))

/-- The rows of a unit read back as its records, less what names an entity that a write of the unit into
an earlier store drops. -/
structure HoldsRest (canon : String → String) (s : Store) (u : UnitRecord) (t : Store) : Prop where
  references : t.ofUnit ReferenceRow.unit t.referenceRecord? t.references u.indexFile =
    ((u.references.map (ReferenceRecord.stored canon)).filter fun r => ¬ s.Drops canon u r.entity).map fun r =>
      some (r.without fun k => s.Drops canon u k)
  relations : t.ofUnit RelationRow.unit t.relationRecord? t.relations u.indexFile =
    ((u.relations.map (RelationRecord.stored canon)).filter fun r =>
      ¬ s.Drops canon u r.source ∧ ¬ s.Drops canon u r.target).map some
  dependencies : (t.ofUnit DependencyRow.unit t.dependencyPaths? t.dependencies u.indexFile).Perm
    ((u.dependencies.flatMap fun path => Writer.dependenciesOn (u.sourceFiles.map canon) (canon path)).map some)

/-! ## Readings after a deletion -/

theorem ofUnit_rest {α β : Type} {unit : α → Int} {read read' : α → β} {rows : List α} {file : String} {keep : α → Bool}
    {stays : β → Bool} {change : β → β} (hkeep : ∀ r ∈ rows, keep r = stays (read r))
    (hread : ∀ r ∈ rows, keep r = true → read' r = change (read r)) :
    s.ofUnit unit read' (rows.filter keep) file = ((s.ofUnit unit read rows file).filter stays).map change := by
  unfold ofUnit
  rw [List.filter_map, List.map_map, List.filter_filter, List.filter_filter]
  have hrows : (rows.filter fun r => (s.indexFileAt? (unit r) == some file) && keep r) =
      rows.filter fun r => (stays ∘ read) r && (s.indexFileAt? (unit r) == some file) := by
    apply List.filter_congr
    intro r hr
    rw [hkeep r hr, Bool.and_comm]
    rfl
  rw [← hrows]
  apply List.map_congr_left
  intro r hr
  obtain ⟨hr, hk⟩ := List.mem_filter.1 hr
  exact hread r hr (Bool.and_eq_true_iff.1 hk).2

section Deletion

variable {gone : Int → Bool} {dropped : EntityKey → Bool}

theorem keyAt?_of_gone (hs : s.Sound) (h : ∀ id k, s.Names id k → gone id = dropped k) {id : Int} {k : EntityKey}
    (hk : s.Names id k) : (s.deleteEntities gone).keyAt? id = if dropped k then none else some k := by
  split
  · rename_i hd
    rw [Option.eq_none_iff_forall_ne_some]
    intro k' hk'
    obtain ⟨e, he, hid, -⟩ := (keyAt?_eq_some (deleteEntities_sound hs gone)).1 hk'
    have hstays := (List.mem_filter.1 he).2
    rw [hid, h id k hk, hd] at hstays
    cases hstays
  · rename_i hd
    rw [keyAt?_deleteEntities hs ((h id k hk).trans (Bool.not_eq_true _ ▸ hd))]
    exact (keyAt?_eq_some hs).2 hk

theorem scope_of_gone (hs : s.Sound) (h : ∀ id k, s.Names id k → gone id = dropped k) {r : ReferenceRow}
    (hr : r ∈ s.references) :
    (if r.scope.any gone then { r with scope := none } else r).scope.bind (s.deleteEntities gone).keyAt? =
      (r.scope.bind s.keyAt?).filter fun k => !dropped k := by
  rcases hscope : r.scope with _ | id
  · simp [hscope]
  · obtain ⟨k, hk⟩ := ((hs.references r hr).scope id hscope).names
    have hgone := h id k hk
    rw [Option.any_some, Option.bind_some, (keyAt?_eq_some hs).2 hk, Option.filter_some, hgone]
    cases hd : dropped k with
    | true => rfl
    | false => simp [hscope, keyAt?_of_gone hs h hk, hd]

/-- A deletion takes along the references to what goes, and clears the scopes that name it. -/
theorem references_deleteEntities (hs : s.Sound) (h : ∀ id k, s.Names id k → gone id = dropped k) (file : String) :
    (s.deleteEntities gone).ofUnit ReferenceRow.unit (s.deleteEntities gone).referenceRecord?
        (s.deleteEntities gone).references file =
      ((s.ofUnit ReferenceRow.unit s.referenceRecord? s.references file).filter
        (Option.all fun r => !dropped r.entity)).map (Option.map (ReferenceRecord.without dropped)) := by
  have hread : ∀ r ∈ s.references, ∃ k p, s.Names r.entity k ∧ s.pathAt? r.file = some p := by
    intro r hr
    obtain ⟨k, hk⟩ := (hs.references r hr).entity.names
    obtain ⟨p, hp⟩ := (hs.references r hr).file.pathAt? hs
    exact ⟨k, p, hk, hp⟩
  refine (ofUnit_map fun r => ?_).trans (ofUnit_rest (fun r hr => ?_) fun r hr hkeep => ?_)
  · split <;> rfl
  · obtain ⟨k, p, hk, hp⟩ := hread r hr
    simp [referenceRecord?, (keyAt?_eq_some hs).2 hk, hp, h _ k hk]
  · obtain ⟨k, p, hk, hp⟩ := hread r hr
    have hstays : dropped k = false := by
      rw [← h _ k hk]
      simpa using hkeep
    have hchange : ∀ r : ReferenceRow, (if r.scope.any gone then { r with scope := none } else r) =
        { r with scope := (if r.scope.any gone then { r with scope := none } else r).scope } := by
      intro r
      split <;> rfl
    have hscope := scope_of_gone hs h hr
    -- only the scope of a row that stays can have changed
    rw [hchange]
    unfold referenceRecord?
    rw [hscope, keyAt?_of_gone hs h hk, (keyAt?_eq_some hs).2 hk, hstays, hp,
      show (s.deleteEntities gone).pathAt? r.file = some p from hp]
    rfl

/-- A deletion takes along the relations with an end that goes. -/
theorem relations_deleteEntities (hs : s.Sound) (h : ∀ id k, s.Names id k → gone id = dropped k) (file : String) :
    (s.deleteEntities gone).ofUnit RelationRow.unit (s.deleteEntities gone).relationRecord?
        (s.deleteEntities gone).relations file =
      ((s.ofUnit RelationRow.unit s.relationRecord? s.relations file).filter
        (Option.all fun r => !(dropped r.source || dropped r.target))).map id := by
  refine ofUnit_rest (fun r hr => ?_) fun r hr hkeep => ?_
  · obtain ⟨k, hk⟩ := (hs.relations r hr).source.names
    obtain ⟨k', hk'⟩ := (hs.relations r hr).target.names
    simp [relationRecord?, (keyAt?_eq_some hs).2 hk, (keyAt?_eq_some hs).2 hk', h _ k hk, h _ k' hk']
  · obtain ⟨k, hk⟩ := (hs.relations r hr).source.names
    obtain ⟨k', hk'⟩ := (hs.relations r hr).target.names
    obtain ⟨hstays, hstays'⟩ : dropped k = false ∧ dropped k' = false := by
      simpa [h _ k hk, h _ k' hk'] using hkeep
    simp [relationRecord?, (keyAt?_eq_some hs).2 hk, (keyAt?_eq_some hs).2 hk', keyAt?_of_gone hs h hk,
      keyAt?_of_gone hs h hk', hstays, hstays']

end Deletion

/-! ## The records after a write -/

theorem finish_holdsRest (hs : s.Sound) {w : Writer} (d : Writer.Drafted canon s u w) :
    HoldsRest canon s u w.finish := by
  have hw := d.sound.store
  have hgone : ∀ id k, w.store.Names id k →
      (w.owned.contains id && !w.kept.contains id) = decide (s.Drops canon u k) := by
    intro id k hn
    obtain ⟨e, hr, rfl⟩ := (names_iff_row? hw).1 hn
    rw [Bool.eq_iff_iff, decide_eq_true_iff]
    exact drafted_gone hs d hr
  have hholds := drafted_holds hs d
  unfold Writer.finish
  refine ⟨?_, ?_, hholds.dependencies⟩
  · rw [references_deleteEntities hw hgone, hholds.references]
    simp [List.filter_map, Function.comp_def]
  · rw [relations_deleteEntities hw hgone, hholds.relations]
    simp [List.filter_map, Function.comp_def]

/-- Whatever a unit mentions of what it owns is declared in one of its source files. -/
def Retains (canon : String → String) (s : Store) (u : UnitRecord) : Prop :=
  ∀ k, u.Mentions canon k → ∀ v, s.view? k = some v → v.owner = some u.indexFile → u.Lists canon k

theorem retains_iff : s.Retains canon u ↔ ∀ k, u.Mentions canon k → ¬ s.Drops canon u k := by
  constructor
  · rintro h k hk ⟨⟨v, hv, ho⟩, hno⟩
    have htouch : u.Touches canon k := by
      unfold UnitRecord.Touches
      rw [List.map_append]
      exact List.mem_append_right _ hk
    exact hno ⟨htouch, h k hk v hv ho⟩
  · intro h k hk v hv ho
    by_contra hno
    exact h k hk ⟨⟨v, hv, ho⟩, fun hl => hno hl.2⟩

/-- A dropped entity takes along whatever the unit says of it. -/
theorem Replaced.holds_iff (h : s.Replaced canon u t) : t.Holds canon u ↔ s.Retains canon u := by
  rw [retains_iff]
  refine ⟨fun hholds k hk hdrop => ?_, h.holds⟩
  obtain ⟨id, hn, -⟩ := hholds.isMentioned h.sound hk
  obtain ⟨e, he, -⟩ := (names_iff_row? h.sound).1 hn
  have hnone := h.dropped k hdrop
  rw [view?, he] at hnone
  cases hnone

/-- The records of a unit after it has been written, with its keys as the writer's cache spells them.
All are there exactly if the unit retains what it mentions of its own. -/
theorem writeUnit_records {Canonical : (String → String) → Prop} (hs : s.Reachable Canonical) (canon : String → String)
    (hu : u.check = .ok ()) :
    ∃ t, s.writeUnit canon u = .ok t ∧ HoldsRest canon s (u.respelled canon) t ∧
      (t.Holds canon (u.respelled canon) ↔ s.Retains canon (u.respelled canon)) ∧
      (u.Spelled canon → HoldsRest canon s u t ∧ (t.Holds canon u ↔ s.Retains canon u)) := by
  have hsound := hs.sound
  refine ⟨s.replaceUnit canon u, by rw [writeUnit, hu], ?_, ?_, fun hc => ⟨?_, ?_⟩⟩
  · exact finish_holdsRest hsound (Writer.drafted_spec_respelled hsound hu)
  · exact (replaceUnit_respelled hsound hu).holds_iff
  · exact finish_holdsRest hsound ((Writer.drafted_of_spelled hsound hu).2.2 hc)
  · exact (replaceUnit_of_spelled hsound hu hc).holds_iff

end Store

namespace Sample

/-- A unit that declares an entity. -/
def owning : UnitRecord where
  indexFile := "a.ali"
  stamp := 1
  sourceFiles := ["a.ads"]
  entities := [⟨"Count", "object", some ⟨"a.ads", 1, 3⟩, {}⟩]

/-- The same unit with another source file, which refers to the entity. -/
def moved : UnitRecord where
  indexFile := "a.ali"
  stamp := 2
  sourceFiles := ["b.ads"]
  references := [⟨⟨"Count", some ⟨"a.ads", 1, 3⟩⟩, ⟨"b.ads", 2, 5⟩, 'r', none⟩]

/-- The store after the first version of the unit has been ingested. -/
def owned : Store :=
  (Store.fresh.update Path.normalize {} (MemorySource.ofUnits [owning]).toSource false none).store

end Sample

open Sample in
/-- The reference that a unit has just recorded goes with the entity that it no longer declares. -/
theorem Store.moved_records : ∃ t, owned.writeUnit Path.normalize moved = .ok t ∧
    t.ofUnit ReferenceRow.unit t.referenceRecord? t.references moved.indexFile = [] ∧
    ¬ t.Holds Path.normalize moved := by
  have hreachable : owned.Reachable (· = Path.normalize) := .update .fresh rfl fun _ h => by cases h
  have hspelled : moved.Spelled Path.normalize := .of_alike (EntityKey.alike_of_uniform Path.normalize_uniform _)
  obtain ⟨t, ht, -, -, h⟩ := writeUnit_records hreachable Path.normalize (u := moved) (by decide +kernel)
  obtain ⟨hrest, hiff⟩ := h hspelled
  refine ⟨t, ht, ?_, ?_⟩
  · rw [hrest.references]
    decide +kernel
  · rw [hiff]
    intro hretains
    have hview : (owned.view? ⟨"Count", some ⟨"a.ads", 1, 3⟩⟩).any
        (fun v => v.owner == some moved.indexFile) = true := by
      decide +kernel
    obtain ⟨v, hv, ho⟩ := (Option.any_eq_true _ _).1 hview
    have hlists : moved.Lists Path.normalize ⟨"Count", some ⟨"a.ads", 1, 3⟩⟩ :=
      hretains _ (by unfold UnitRecord.Mentions; decide +kernel) v hv (beq_iff_eq.1 ho)
    revert hlists
    unfold UnitRecord.Lists
    decide +kernel

end CrossIndex
