/-
How far a write changes the tables. Files come at the end of their table, and only for texts that the
write has asked for; entities keep their ids and their order, and new ones come at the end until the
write deletes what the unit has lost; the kinds and the generation stay.
-/
import CrossIndex.Proofs.Store.Trace

namespace CrossIndex

namespace Writer

variable {canon : String → String}

/-- How a writer goes on, table by table. -/
structure Extends (w w' : Writer) : Prop where
  files : ∃ new, w'.store.files = w.store.files ++ new ∧ ∀ f ∈ new, f.path ∈ w'.trace.paths
  asked : ∀ path ∈ w.trace.paths, path ∈ w'.trace.paths
  ids : w.store.entities.map EntityRow.id <+: w'.store.entities.map EntityRow.id
  kinds : w'.store.kinds = w.store.kinds
  generation : w'.store.generation = w.store.generation

/-- A step that adds no files and asks for none. -/
theorem Extends.of_eq {w w' : Writer} (hfiles : w'.store.files = w.store.files) (hpaths : w'.paths = w.paths)
    (hids : w.store.entities.map EntityRow.id <+: w'.store.entities.map EntityRow.id)
    (hkinds : w'.store.kinds = w.store.kinds) (hgeneration : w'.store.generation = w.store.generation) :
    w.Extends w' := by
  refine ⟨⟨[], by rw [hfiles, List.append_nil], fun _ h => by cases h⟩, fun path h => ?_, hids, hkinds, hgeneration⟩
  unfold trace
  rw [hpaths]
  exact h

theorem Extends.refl (w : Writer) : w.Extends w :=
  .of_eq rfl rfl (List.prefix_refl _) rfl rfl

theorem Extends.trans {a b c : Writer} (h : a.Extends b) (h' : b.Extends c) : a.Extends c := by
  obtain ⟨new, hnew, hin⟩ := h.files
  obtain ⟨new', hnew', hin'⟩ := h'.files
  refine ⟨⟨new ++ new', by rw [hnew', hnew, List.append_assoc], fun f hf => ?_⟩, fun p hp => h'.asked p (h.asked p hp),
    h.ids.trans h'.ids, h'.kinds.trans h.kinds, h'.generation.trans h.generation⟩
  rcases List.mem_append.1 hf with hf | hf
  · exact h'.asked _ (hin f hf)
  · exact hin' f hf

/-- A step that may be taken once may be taken for every element of a list. -/
theorem Extends.foldl {α : Type} {step : Writer → α → Writer} (h : ∀ w a, Extends w (step w a)) (l : List α)
    (w : Writer) :
    w.Extends (l.foldl step w) :=
  List.foldlRecOn l step (.refl w) fun _ hw a _ => hw.trans (h _ a)

/-! ## One step -/

/-- A file is added only if it is neither in the cache nor in the table, and its text is noted in any case. -/
theorem fileId_extends (w : Writer) (path : String) : w.Extends (w.fileId canon path).2 := by
  unfold fileId
  cases hl : w.paths.lookup (canon path) with
  | some id =>
    simp only [hl]
    exact .refl w
  | none =>
    simp only [hl]
    unfold Store.internFile
    cases hf : w.store.fileAt? (canon path) with
    | some f =>
      refine ⟨⟨[], by simp, fun _ h => by cases h⟩, fun p hp => ?_, List.prefix_refl _, rfl, rfl⟩
      simp only [trace] at hp ⊢
      exact List.mem_cons_of_mem _ hp
    | none =>
      refine ⟨⟨[⟨_, canon path⟩], rfl, ?_⟩, fun p hp => ?_, List.prefix_refl _, rfl, rfl⟩
      · simp [trace]
      · simp only [trace] at hp ⊢
        exact List.mem_cons_of_mem _ hp

theorem place_extends (w : Writer) (decl : Option Location) : w.Extends (w.place canon decl).2 := by
  cases decl with
  | none => exact .refl w
  | some l => exact fileId_extends w l.file

theorem addSource_extends (w : Writer) (path : String) : w.Extends (w.addSource canon path) :=
  (fileId_extends w path).trans (.of_eq rfl rfl (List.prefix_refl _) rfl rfl)

theorem updateEntity_ids (s : Store) (id : Int) {change : EntityRow → EntityRow} (h : ∀ e, (change e).id = e.id) :
    (s.updateEntity id change).entities.map EntityRow.id = s.entities.map EntityRow.id := by
  apply Store.map_map_key
  intro e
  split
  · exact h e
  · rfl

theorem addEntity_ids (s : Store) (row : Int → EntityRow) :
    s.entities.map EntityRow.id <+: (s.addEntity row).2.entities.map EntityRow.id := by
  show _ <+: (s.entities ++ [_]).map EntityRow.id
  rw [List.map_append]
  exact List.prefix_append _ _

/-- A recorded entity is described in the row that it has, or added at the end. -/
theorem putEntity_extends (w : Writer) (r : EntityRecord) : w.Extends (w.putEntity canon r) := by
  have hplace : w.Extends (w.place canon r.decl).2 := place_extends w r.decl
  refine hplace.trans ?_
  unfold putEntity
  cases hf : (w.place canon r.decl).2.store.entityAt? r.name (w.place canon r.decl).1 with
  | none =>
    simp only [hf]
    exact .of_eq rfl rfl (addEntity_ids _ _) rfl rfl
  | some e =>
    simp only [hf]
    -- the row is described anew or left as it is; either way the ids stay
    split
    · have hids : ∀ owner,
          ((w.place canon r.decl).2.store.updateEntity e.id (r.describe owner)).entities.map EntityRow.id =
            (w.place canon r.decl).2.store.entities.map EntityRow.id := fun _ => updateEntity_ids _ e.id fun _ => rfl
      refine .of_eq rfl rfl ⟨[], ?_⟩ rfl rfl
      rw [List.append_nil]
      exact (hids _).symm
    · exact .of_eq rfl rfl (List.prefix_refl _) rfl rfl

/-- An entity that is mentioned becomes a stub at the end if it is not there. -/
theorem entityId_extends (w : Writer) (key : EntityKey) : w.Extends (w.entityId canon key).2 := by
  unfold entityId
  cases hk : w.known? key with
  | some id => exact .refl w
  | none =>
    have hplace : w.Extends (w.place canon key.decl).2 := place_extends w key.decl
    refine hplace.trans ?_
    cases hf : (w.place canon key.decl).2.store.entityAt? key.name (w.place canon key.decl).1 with
    | none =>
      simp only [hf]
      exact .of_eq rfl rfl (addEntity_ids _ _) rfl rfl
    | some e =>
      simp only [hf]
      exact .of_eq rfl rfl (List.prefix_refl _) rfl rfl

theorem scopeId_extends (w : Writer) (scope : Option EntityKey) : w.Extends (w.scopeId canon scope).2 := by
  cases scope with
  | none => exact .refl w
  | some key => exact entityId_extends w key

theorem putReference_extends (w : Writer) (r : ReferenceRecord) : w.Extends (w.putReference canon r) :=
  (((entityId_extends w r.entity).trans (scopeId_extends _ r.scope)).trans (fileId_extends _ r.location.file)).trans
    (.of_eq rfl rfl (List.prefix_refl _) rfl rfl)

theorem putRelation_extends (w : Writer) (r : RelationRecord) : w.Extends (w.putRelation canon r) :=
  ((entityId_extends w r.source).trans (entityId_extends _ r.target)).trans
    (.of_eq rfl rfl (List.prefix_refl _) rfl rfl)

theorem putDependency_extends (w : Writer) (path : String) : w.Extends (w.putDependency canon path) :=
  (fileId_extends w path).trans (.of_eq rfl rfl (List.prefix_refl _) rfl rfl)

/-! ## The whole unit -/

/-- A draft extends the tables from one record to the next. -/
theorem drafted_extends (canon : String → String) (s : Store) (u : UnitRecord) :
    (start s u).Extends (s.drafted canon u) :=
  ((((Extends.foldl addSource_extends u.sourceFiles _).trans (.foldl putEntity_extends u.entities _)).trans
    (.foldl putReference_extends u.references _)).trans (.foldl putRelation_extends u.relations _)).trans
    (.foldl putDependency_extends u.dependencies _)

end Writer

namespace Store

variable {canon : String → String}

/-- What a write adds to the tables before it deletes anything. -/
theorem drafted_extent (canon : String → String) (s : Store) (u : UnitRecord) :
    (∃ new, (s.drafted canon u).store.files = s.files ++ new ∧ ∀ f ∈ new, f.path ∈ (u.trace canon).paths) ∧
      s.entities.map EntityRow.id <+: (s.drafted canon u).store.entities.map EntityRow.id ∧
      (s.drafted canon u).store.kinds = s.kinds ∧ (s.drafted canon u).store.generation = s.generation := by
  obtain ⟨hfiles, -, hids, hkinds, hgeneration⟩ := Writer.drafted_extends canon s u
  rw [Writer.trace_drafted] at hfiles
  rw [Writer.start_store] at hfiles hids hkinds hgeneration
  exact ⟨hfiles, hids, hkinds, hgeneration⟩

/-- Counting up the generation is left to the end of a pass. -/
theorem replaceUnit_generation (canon : String → String) (s : Store) (u : UnitRecord) :
    (s.replaceUnit canon u).generation = s.generation :=
  (drafted_extent canon s u).2.2.2

theorem foldl_replaceUnit_generation (canon : String → String) (us : List UnitRecord) (s : Store) :
    (us.foldl (replaceUnit canon) s).generation = s.generation := by
  induction us generalizing s with
  | nil => rfl
  | cons u us ih => rw [List.foldl_cons, ih, replaceUnit_generation]

end Store

end CrossIndex
