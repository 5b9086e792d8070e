/-
What comes into a store and what becomes of it there. A write, a deletion or an insertion adds single rows,
changes them or takes them away; a property of stores that survives each such change survives every update
(`Rowwise`). Two properties follow for every store of a database: its positions and kinds of references are those
of the records that came in, and the ids of its entities ascend.
-/
import CrossIndex.Proofs.Source.Memory
import CrossIndex.Proofs.Update.Inserted

namespace CrossIndex

/-- What is let into a store: the lines and columns of declarations, and those of references with their kind. -/
structure Intake where
  declaration : Int → Int → Prop
  reference : Int → Int → Char → Prop

/-- Everything is let in. -/
def Intake.any : Intake :=
  ⟨fun _ _ => True, fun _ _ _ => True⟩

/-- The declaration in a key is let in. -/
def EntityKey.Admitted (i : Intake) (k : EntityKey) : Prop :=
  ∀ l, k.decl = some l → i.declaration l.line l.column

/-- All that a unit records and mentions is let in. -/
structure UnitRecord.Admitted (i : Intake) (u : UnitRecord) : Prop where
  recorded : ∀ k ∈ u.recorded, k.Admitted i
  mentioned : ∀ k ∈ u.mentioned, k.Admitted i
  references : ∀ r ∈ u.references, i.reference r.location.line r.location.column r.kindId

namespace Store

/-- A property of stores that survives the changes of single entities and references, as long as nothing comes in
that is not let in. -/
structure Rowwise (i : Intake) (P : Store → Prop) : Prop where
  others : ∀ {s t : Store}, P s → t.entities = s.entities → t.references = s.references → P t
  add : ∀ {s : Store} {row : Int → EntityRow}, P s → (∀ id, (row id).id = id) →
    (∀ id p, (row id).decl = some p → i.declaration p.line p.column) → P (s.addEntity row).2
  describe : ∀ {s : Store} (id : Int) {change : EntityRow → EntityRow}, P s →
    (∀ e, (change e).id = e.id ∧ (change e).decl = e.decl) → P (s.updateEntity id change)
  refer : ∀ {s : Store} (row : ReferenceRow), P s → i.reference row.line row.column row.kindId →
    P { s with references := s.references ++ [row] }
  delete : ∀ {s : Store} (gone : Int → Bool), P s → P (s.deleteEntities gone)
  clear : ∀ {s : Store} (unit : Int), P s → P (s.deleteUnitRows unit)

end Store

variable {i : Intake} {P : Store → Prop} {canon : String → String}

/-! ## The steps of a write -/

namespace Writer

open Store

variable (canon)

theorem fileId_rowwise (h : Rowwise i P) {w : Writer} (hw : P w.store) (path : String) :
    P (w.fileId canon path).2.store := by
  unfold fileId
  dsimp only
  split
  · exact hw
  · dsimp only
    rw [internFile_eq]
    exact h.others hw rfl rfl

theorem place_rowwise (h : Rowwise i P) {w : Writer} (hw : P w.store) (decl : Option Location) :
    P (w.place canon decl).2.store := by
  cases decl with
  | none => exact hw
  | some l => exact fileId_rowwise canon h hw l.file

/-- A place has the line and the column of the location that it is the place of. -/
theorem place_admitted {k : EntityKey} (hk : k.Admitted i) (w : Writer) {p : Place}
    (hp : (w.place canon k.decl).1 = some p) : i.declaration p.line p.column := by
  rcases hd : k.decl with _ | l <;> rw [hd] at hp
  · cases hp
  · obtain rfl := Option.some.inj hp
    exact hk l hd

theorem putEntity_rowwise (h : Rowwise i P) {w : Writer} (hw : P w.store) {r : EntityRecord}
    (hr : r.key.Admitted i) : P (w.putEntity canon r).store := by
  have hplace : P (w.place canon r.decl).2.store := place_rowwise canon h hw r.decl
  unfold putEntity
  dsimp only
  split
  · dsimp only
    split
    · exact h.describe _ hplace fun _ => ⟨rfl, rfl⟩
    · exact hplace
  · exact h.add hplace (fun _ => rfl) fun _ p hp => place_admitted canon hr w hp

theorem entityId_rowwise (h : Rowwise i P) {w : Writer} (hw : P w.store) {key : EntityKey} (hk : key.Admitted i) :
    P (w.entityId canon key).2.store := by
  have hplace : P (w.place canon key.decl).2.store := place_rowwise canon h hw key.decl
  unfold entityId
  split
  · exact hw
  · cases hf : (w.place canon key.decl).2.store.entityAt? key.name (w.place canon key.decl).1 with
    | none =>
      simp only [hf]
      exact h.add hplace (fun _ => rfl) fun _ p hp => place_admitted canon hk w hp
    | some e =>
      simp only [hf]
      exact hplace

theorem scopeId_rowwise (h : Rowwise i P) {w : Writer} (hw : P w.store) {scope : Option EntityKey}
    (hk : ∀ key ∈ scope.toList, key.Admitted i) : P (w.scopeId canon scope).2.store := by
  cases scope with
  | none => exact hw
  | some key => exact entityId_rowwise canon h hw (hk key (by simp))

theorem putReference_rowwise (h : Rowwise i P) {w : Writer} (hw : P w.store) {r : ReferenceRecord}
    (hk : ∀ key ∈ r.keys, key.Admitted i) (hr : i.reference r.location.line r.location.column r.kindId) :
    P (w.putReference canon r).store := by
  have hentity : P (w.entityId canon r.entity).2.store := entityId_rowwise canon h hw (hk _ List.mem_cons_self)
  have hscope := scopeId_rowwise canon h hentity fun key hkey => hk key (List.mem_cons_of_mem _ hkey)
  exact h.refer _ (fileId_rowwise canon h hscope r.location.file) hr

theorem putRelation_rowwise (h : Rowwise i P) {w : Writer} (hw : P w.store) {r : RelationRecord}
    (hk : ∀ key ∈ r.keys, key.Admitted i) : P (w.putRelation canon r).store := by
  have hsource : P (w.entityId canon r.source).2.store :=
    entityId_rowwise canon h hw (hk r.source (by simp [RelationRecord.keys]))
  have htarget := entityId_rowwise canon h hsource (hk r.target (by simp [RelationRecord.keys]))
  exact h.others htarget rfl rfl

theorem putDependency_rowwise (h : Rowwise i P) {w : Writer} (hw : P w.store) (path : String) :
    P (w.putDependency canon path).store :=
  h.others (fileId_rowwise canon h hw path) rfl rfl

end Writer

namespace Store

variable {s t : Store} {u : UnitRecord}

/-! ## Writing, pruning, purging and inserting -/

namespace Rowwise

theorem drafted (h : Rowwise i P) (hs : P s) (hu : u.Admitted i) : P (s.drafted canon u).store := by
  have hkeys : (∀ r ∈ u.references, ∀ key ∈ r.keys, key.Admitted i) ∧
      ∀ r ∈ u.relations, ∀ key ∈ r.keys, key.Admitted i :=
    ⟨fun r hr key hkey => hu.mentioned key (List.mem_append_left _ (List.mem_flatMap.2 ⟨r, hr, hkey⟩)),
      fun r hr key hkey => hu.mentioned key (List.mem_append_right _ (List.mem_flatMap.2 ⟨r, hr, hkey⟩))⟩
  have hentered : P (s.enterUnit u).2 := by
    rw [Writer.enterUnit_eq]
    exact h.others hs rfl rfl
  have hstart : P (Writer.start s u).store := h.clear _ hentered
  have hsources := List.foldlRecOn (motive := fun w : Writer => P w.store) u.sourceFiles (Writer.addSource canon) hstart
    fun w hw path _ => Writer.fileId_rowwise canon h hw path
  have hentities := List.foldlRecOn (motive := fun w : Writer => P w.store) u.entities (Writer.putEntity canon) hsources
    fun w hw r hr => Writer.putEntity_rowwise canon h hw (hu.recorded _ (List.mem_map_of_mem hr))
  have hreferences := List.foldlRecOn (motive := fun w : Writer => P w.store) u.references (Writer.putReference canon)
    hentities fun w hw r hr => Writer.putReference_rowwise canon h hw (hkeys.1 r hr) (hu.references r hr)
  have hrelations := List.foldlRecOn (motive := fun w : Writer => P w.store) u.relations (Writer.putRelation canon)
    hreferences fun w hw r hr => Writer.putRelation_rowwise canon h hw (hkeys.2 r hr)
  exact List.foldlRecOn (motive := fun w : Writer => P w.store) u.dependencies (Writer.putDependency canon) hrelations
    fun w hw path _ => Writer.putDependency_rowwise canon h hw path

theorem replaceUnit (h : Rowwise i P) (hs : P s) (hu : u.Admitted i) : P (s.replaceUnit canon u) := by
  unfold Store.replaceUnit Writer.finish
  exact h.delete _ (h.drafted hs hu)

theorem deleteUnit (h : Rowwise i P) (hs : P s) (unit : Int) : P (s.deleteUnit unit) :=
  h.others (h.delete (fun id => (s.ownedBy unit).contains id) (h.clear unit hs)) rfl rfl

theorem closed (h : Rowwise i P) (hs : P s) : P s.closed :=
  h.others (h.delete _ hs) rfl rfl

/-- Settling a key without changing a row that is there. -/
theorem settle (h : Rowwise i P) (hs : P s) {name : String} {decl : Option Place} {row : Int → EntityRow}
    (hid : ∀ id, (row id).id = id) (hrow : ∀ id p, (row id).decl = some p → i.declaration p.line p.column) :
    P (s.settle name decl (fun e => e) row).2 := by
  rw [settle_keep]
  split
  · exact hs
  · exact h.add hs hid hrow

theorem insertEntity (h : Rowwise i P) (hs : P s) {r : EntityRecord} (hr : r.key.Admitted i) {e : Entity}
    (ht : s.insertEntity canon r = .ok (e, t)) : P t := by
  obtain ⟨-, ⟨-, rfl⟩ | ⟨l, hl, p, hp, rfl⟩⟩ := insertEntity_eq ht
  · exact h.others (h.settle hs (fun _ => rfl) fun _ _ hp => by cases hp) rfl rfl
  · have hfile : P (s.internFile (canon l.file)).2 := by
      rw [internFile_eq]
      exact h.others hs rfl rfl
    refine h.others (h.settle hfile (fun _ => rfl) fun _ p' hp' => ?_) rfl rfl
    obtain rfl := Option.some.inj (hp.symm.trans hp')
    exact hr l hl

theorem registerKind (h : Rowwise i P) (hs : P s) (kind : ReferenceKind) : P (s.registerKind kind) := by
  unfold Store.registerKind
  split <;> exact h.others hs rfl rfl

theorem replaceAll (h : Rowwise i P) {us : List UnitRecord} (hs : P s) (hus : ∀ u ∈ us, u.Admitted i) :
    P (us.foldl (Store.replaceUnit canon) s) :=
  List.foldlRecOn (motive := P) us (Store.replaceUnit canon) hs fun _ ht u hu => h.replaceUnit ht (hus u hu)

/-! ## Updates -/

/-- If everything is let in, each step of an update keeps the property. -/
theorem steady (h : Rowwise .any P) : Steady canon P where
  write {s t u} hs hw := by
    have hkey : ∀ k : EntityKey, k.Admitted .any := fun _ _ _ => trivial
    unfold writeUnit at hw
    split at hw
    · obtain rfl := Except.ok.inj hw
      exact h.replaceUnit hs ⟨fun k _ => hkey k, fun k _ => hkey k, fun _ _ => trivial⟩
    · cases hw
  prune hs unit := h.deleteUnit hs unit
  purge hs := h.delete _ hs
  bump hs := h.others hs rfl rfl
  mark hs := h.others hs rfl rfl

theorem finish (h : Rowwise i P) (files : List String) {p : Pass} (hp : P p.store) :
    P (files.foldl Pass.prune p).finish.store := by
  have hpruned := Pass.foldl_prune_steady (P := P) (fun ht unit => h.deleteUnit ht unit) files hp
  unfold Pass.finish
  split
  · exact h.closed hpruned
  · exact hpruned

variable {config : Config} {src : Source} {force : Bool}

/-- An update, however it ends, if the units that it ingests are let in. -/
theorem update (h : Rowwise i P) (hs : P s) (hus : ∀ u, s.Ingests config src force u → u.Admitted i) :
    P (s.update canon config src force none).store := by
  cases hunits : src.units with
  | error f =>
    rw [update_of_units_error rfl hunits]
    exact hs
  | ok units =>
    rw [update_store_of_units hunits]
    have hwritten : ∀ before rest, (Plan.make config force s units).offered = before ++ rest → src.Serves before →
        (rest = [] ∨ (Plan.make config force s units).staleCount < config.stagingThreshold) →
        P ((src.usable before).foldl (Store.replaceUnit canon) s) := by
      intro before rest hoff hserves hrest
      exact h.replaceAll hs fun u hu => hus u ⟨units, before, rest, hunits, hoff, hserves, hu, hrest⟩
    rcases Pass.run_cases canon src (Plan.make config force s units) s with ⟨hserves, hrun⟩ |
      ⟨before, v, rest, f, hoff, hserves, -, -, hrun⟩
    · rw [updateSeeded_of_run hrun]
      exact h.finish _ (p := Pass.after canon src _ { store := s } _)
        (hwritten _ [] (List.append_nil _).symm hserves (.inl rfl))
    · rw [updateSeeded_of_failure hrun]
      dsimp only
      split
      · exact hs
      · rename_i hplace
        exact hwritten before _ hoff hserves (.inr (Nat.not_le.1 hplace))

end Rowwise

/-! ## All stores of a database -/

/-- The stores that a database can have if everything that was ever ingested or inserted, directly or by way of a
baseline, is let in. -/
inductive Fed (i : Intake) : Store → Prop
  | fresh : Fed i Store.fresh
  | update {s : Store} {canon : String → String} {config : Config} {src : Source} {force : Bool}
      {baseline : Option Baseline} : Fed i s → (∀ saved, baseline = some (.saved saved) → Fed i saved) →
      (∀ seeded copied reports, s.seed baseline = .ok (seeded, copied, reports) →
        ∀ u, seeded.Ingests config src force u → u.Admitted i) →
      Fed i (s.update canon config src force baseline).store
  | insert {s t : Store} {canon : String → String} {r : EntityRecord} {e : Entity} : Fed i s → r.key.Admitted i →
      s.insertEntity canon r = .ok (e, t) → Fed i t
  | register {s : Store} {kind : ReferenceKind} : Fed i s → Fed i (s.registerKind kind)

/-- What survives the changes of single rows holds of every such store. -/
theorem Fed.rowwise (h : Rowwise i P) (hfresh : P Store.fresh) (hs : s.Fed i) : P s := by
  induction hs with
  | fresh => exact hfresh
  | @update s canon config src force baseline _ _ hus ih ihb =>
    cases hseed : s.seed baseline with
    | error f =>
      rw [update_of_seed_error hseed]
      exact ih
    | ok result =>
      obtain ⟨seeded, copied, reports⟩ := result
      have hseeded : P seeded := seed_steady (P := P) (fun ht => h.others ht rfl rfl) ih ihb hseed
      rw [update_of_seed hseed]
      exact h.update hseeded (hus seeded copied reports hseed)
  | insert _ hr ht ih => exact h.insertEntity ih hr ht
  | register _ ih => exact h.registerKind ih _

/-- An update without baseline from units in memory that are let in. -/
theorem Fed.update_ofUnits {config : Config} {us : List UnitRecord} {force : Bool} (hs : s.Fed i)
    (hus : ∀ u ∈ us, u.Admitted i) :
    (s.update canon config (MemorySource.ofUnits us).toSource force none).store.Fed i :=
  .update hs (fun _ h => by cases h) fun _ _ _ _ u hu => by
    obtain ⟨_, _, _, _, hload⟩ := hu.loaded
    exact hus u (MemorySource.mem_of_load_ofUnits hload)

/-! ## What is stored is what came in -/

/-- Every stored declaration and reference is of the sort that is let in. -/
structure Confined (i : Intake) (s : Store) : Prop where
  entities : ∀ e ∈ s.entities, ∀ p, e.decl = some p → i.declaration p.line p.column
  references : ∀ r ∈ s.references, i.reference r.line r.column r.kindId

theorem confined_rowwise (i : Intake) : Rowwise i (Confined i) where
  others hs he hr := ⟨he ▸ hs.entities, hr ▸ hs.references⟩
  add hs _ hrow := by
    refine ⟨fun e he => ?_, hs.references⟩
    rcases List.mem_append.1 he with he | he
    · exact hs.entities e he
    · obtain rfl := List.mem_singleton.1 he
      exact hrow _
  describe id change hs hchange := by
    refine ⟨fun e he p hp => ?_, hs.references⟩
    obtain ⟨e', he', rfl⟩ := List.mem_map.1 he
    refine hs.entities e' he' p ?_
    split at hp
    · exact (hchange e').2 ▸ hp
    · exact hp
  refer row hs hrow := by
    refine ⟨hs.entities, fun r hr => ?_⟩
    rcases List.mem_append.1 hr with hr | hr
    · exact hs.references r hr
    · obtain rfl := List.mem_singleton.1 hr
      exact hrow
  delete gone hs := by
    refine ⟨fun e he => hs.entities e (List.mem_of_mem_filter he), fun r hr => ?_⟩
    obtain ⟨r', hr', -, rfl⟩ := mem_deleteEntities_references.1 hr
    exact hs.references r' hr'
  clear unit hs := ⟨hs.entities, fun r hr => hs.references r (List.mem_of_mem_filter hr)⟩

theorem Fed.confined (hs : s.Fed i) : s.Confined i :=
  hs.rowwise (confined_rowwise i) ⟨fun _ h => (by cases h), fun _ h => (by cases h)⟩

/-! ## Ids ascend -/

/-- The ids of entities ascend from 1 in the order of their rows. -/
def Ascending (s : Store) : Prop :=
  (0 :: s.entities.map EntityRow.id).Pairwise (· < ·)

theorem pairwise_nextId {ids : List Int} (h : (0 :: ids).Pairwise (· < ·)) :
    (0 :: (ids ++ [nextId ids])).Pairwise (· < ·) := by
  obtain ⟨hzero, hids⟩ := le_foldl_max ids 0
  rw [← List.cons_append, List.pairwise_append]
  refine ⟨h, List.pairwise_singleton _ _, fun a ha b hb => ?_⟩
  obtain rfl := List.mem_singleton.1 hb
  unfold nextId
  rcases List.mem_cons.1 ha with rfl | ha
  · omega
  · have := hids a ha
    omega

theorem ascending_rowwise : Rowwise .any Ascending where
  others hs he _ := by
    unfold Ascending
    rw [he]
    exact hs
  add {s row} hs hid _ := by
    unfold Ascending addEntity
    rw [List.map_append, List.map_singleton, hid]
    exact pairwise_nextId hs
  describe id change hs hchange := by
    unfold Ascending
    rw [Writer.updateEntity_ids _ _ fun e => (hchange e).1]
    exact hs
  refer _ hs _ := hs
  delete _ hs := hs.sublist ((List.filter_sublist.map _).cons_cons 0)
  clear _ hs := hs

/-- What survives the changes of single rows holds of every store of a database. -/
theorem Reachable.rowwise {Canonical : (String → String) → Prop} (h : Rowwise .any P) (hfresh : P Store.fresh)
    (hs : s.Reachable Canonical) : P s := by
  induction hs with
  | fresh => exact hfresh
  | update _ _ _ ih ihb => exact updateOn_steady h.steady _ _ _ _ ih ihb
  | insert _ _ ht ih => exact h.insertEntity ih (fun _ _ => trivial) ht
  | register _ ih => exact h.registerKind ih _

theorem Reachable.ascending {Canonical : (String → String) → Prop} (hs : s.Reachable Canonical) : s.Ascending :=
  hs.rowwise ascending_rowwise (List.pairwise_singleton _ _)

theorem Ascending.pos (hs : s.Ascending) {e : EntityRow} (he : e ∈ s.entities) : 1 ≤ e.id :=
  (List.pairwise_cons.1 hs).1 e.id (List.mem_map_of_mem he)

end Store

end CrossIndex
