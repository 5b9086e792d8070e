/-
What the marks of a baseline are read for. Writing a unit finds the row of the unit, whatever its mark, and
looks at no other row of a unit; deletions and the purge of orphans do not look at them at all. Main
statement: stores that are alike up to the marks stay so when the same unit is written to both.
-/
import CrossIndex.Proofs.Store.Draft
import CrossIndex.Update

namespace CrossIndex

/-- The row as one that a baseline has brought. -/
def UnitRow.brought (r : UnitRow) : UnitRow :=
  { r with fromBaseline := true }

namespace Store

/-- The store with other rows of units. -/
def withUnits (s : Store) (units : List UnitRow) : Store :=
  { s with units := units }

/-- Two stores that differ at most in which units count as brought by a baseline. -/
def Alike (s t : Store) : Prop :=
  s.markBaseline = t.markBaseline

theorem markBaseline_eq (s : Store) : s.markBaseline = s.withUnits (s.units.map UnitRow.brought) :=
  rfl

theorem map_brought_brought (rows : List UnitRow) :
    (rows.map UnitRow.brought).map UnitRow.brought = rows.map UnitRow.brought := by
  rw [List.map_map]
  rfl

/-- Marking all units changes the marks only. -/
theorem markBaseline_alike (s : Store) : s.markBaseline.Alike s := by
  unfold Alike
  rw [markBaseline_eq s.markBaseline, markBaseline_eq s]
  exact congrArg (s.withUnits ·) (map_brought_brought s.units)

/-- Only the rows of units are to be compared when the rest is the same. -/
theorem alike_withUnits {s : Store} {units units' : List UnitRow}
    (h : units.map UnitRow.brought = units'.map UnitRow.brought) : (s.withUnits units).Alike (s.withUnits units') :=
  congrArg (s.withUnits ·) h

/-- Files are looked up and added in their own table. -/
theorem internFile_withUnits (s : Store) (units : List UnitRow) (path : String) :
    (s.withUnits units).internFile path = ((s.internFile path).1, (s.internFile path).2.withUnits units) := by
  have hfind : (s.withUnits units).fileAt? path = s.fileAt? path := rfl
  unfold internFile
  rw [hfind]
  cases s.fileAt? path <;> rfl

end Store

/-! ## What is taken in after the row of the unit -/

namespace Writer

variable {canon : String → String}

/-- The writer over a store with other rows of units. -/
def withUnits (w : Writer) (units : List UnitRow) : Writer :=
  { w with store := w.store.withUnits units }

variable (w : Writer) (units : List UnitRow)

theorem fileId_withUnits (path : String) : (w.withUnits units).fileId canon path =
    ((w.fileId canon path).1, (w.fileId canon path).2.withUnits units) := by
  have hlookup : (w.withUnits units).paths = w.paths := rfl
  have hstore : (w.withUnits units).store = w.store.withUnits units := rfl
  unfold fileId
  simp only [hlookup, hstore, Store.internFile_withUnits]
  cases w.paths.lookup (canon path) <;> rfl

theorem place_withUnits (decl : Option Location) : (w.withUnits units).place canon decl =
    ((w.place canon decl).1, (w.place canon decl).2.withUnits units) := by
  cases decl with
  | none => rfl
  | some l => simp only [place, fileId_withUnits]

theorem addSource_withUnits (path : String) :
    (w.withUnits units).addSource canon path = (w.addSource canon path).withUnits units := by
  simp only [addSource, fileId_withUnits]
  rfl

theorem putEntity_withUnits (r : EntityRecord) :
    (w.withUnits units).putEntity canon r = (w.putEntity canon r).withUnits units := by
  simp only [putEntity, place_withUnits]
  generalize w.place canon r.decl = placed
  obtain ⟨decl, w⟩ := placed
  have hfind : (w.withUnits units).store.entityAt? r.name decl = w.store.entityAt? r.name decl := rfl
  have howns : (w.withUnits units).declares decl = w.declares decl := rfl
  simp only [hfind, howns]
  cases w.store.entityAt? r.name decl with
  | none => rfl
  | some e => cases hdescribes : w.declares decl || e.kind.isEmpty <;> simp only [hdescribes] <;> rfl

/-- Finding an entity or adding a stub does not look at the rows of units. -/
theorem entityId_withUnits (key : EntityKey) : (w.withUnits units).entityId canon key =
    ((w.entityId canon key).1, (w.entityId canon key).2.withUnits units) := by
  have hknown : (w.withUnits units).known? key = w.known? key := rfl
  simp only [entityId, hknown]
  cases w.known? key with
  | some id => rfl
  | none =>
    simp only [place_withUnits]
    generalize w.place canon key.decl = placed
    obtain ⟨decl, w⟩ := placed
    have hfind : (w.withUnits units).store.entityAt? key.name decl = w.store.entityAt? key.name decl := rfl
    simp only [hfind]
    cases w.store.entityAt? key.name decl <;> rfl

theorem scopeId_withUnits (scope : Option EntityKey) : (w.withUnits units).scopeId canon scope =
    ((w.scopeId canon scope).1, (w.scopeId canon scope).2.withUnits units) := by
  cases scope with
  | none => rfl
  | some key => simp only [scopeId, entityId_withUnits]

theorem putReference_withUnits (r : ReferenceRecord) :
    (w.withUnits units).putReference canon r = (w.putReference canon r).withUnits units := by
  simp only [putReference, entityId_withUnits, scopeId_withUnits, fileId_withUnits]
  rfl

theorem putRelation_withUnits (r : RelationRecord) :
    (w.withUnits units).putRelation canon r = (w.putRelation canon r).withUnits units := by
  simp only [putRelation, entityId_withUnits]
  rfl

theorem putDependency_withUnits (path : String) :
    (w.withUnits units).putDependency canon path = (w.putDependency canon path).withUnits units := by
  simp only [putDependency, fileId_withUnits]
  rfl

/-- The writer after all records of a unit, from any writer on. -/
def takeRecords (canon : String → String) (u : UnitRecord) (w : Writer) : Writer :=
  let w := u.sourceFiles.foldl (addSource canon) w
  let w := u.entities.foldl (putEntity canon) w
  let w := u.references.foldl (putReference canon) w
  let w := u.relations.foldl (putRelation canon) w
  u.dependencies.foldl (putDependency canon) w

/-- No record of a unit is taken in differently over other rows of units. -/
theorem takeRecords_withUnits (u : UnitRecord) :
    (w.withUnits units).takeRecords canon u = (w.takeRecords canon u).withUnits units := by
  unfold takeRecords
  simp only
  rw [List.foldl_hom (withUnits · units) fun w path => addSource_withUnits w units path,
    List.foldl_hom (withUnits · units) fun w r => putEntity_withUnits w units r,
    List.foldl_hom (withUnits · units) fun w r => putReference_withUnits w units r,
    List.foldl_hom (withUnits · units) fun w r => putRelation_withUnits w units r,
    List.foldl_hom (withUnits · units) fun w path => putDependency_withUnits w units path]

end Writer

/-! ## The row of the unit -/

namespace Store

variable {canon : String → String} {s t : Store}

theorem unit?_markBaseline (s : Store) (file : String) :
    s.markBaseline.unit? file = (s.unit? file).map UnitRow.brought := by
  unfold unit? markBaseline
  rw [List.find?_map]
  rfl

/-- The row of a unit gets the same id with and without the marks, and the rows agree up to them. -/
theorem enterUnit_markBaseline (s : Store) (u : UnitRecord) : (s.markBaseline.enterUnit u).1 = (s.enterUnit u).1 ∧
    (s.markBaseline.enterUnit u).2.units.map UnitRow.brought = (s.enterUnit u).2.units.map UnitRow.brought := by
  have hids : s.markBaseline.units.map UnitRow.id = s.units.map UnitRow.id := by
    rw [markBaseline_eq]
    exact List.map_map
  unfold enterUnit
  rw [unit?_markBaseline]
  cases s.unit? u.indexFile with
  | none =>
    simp only [Option.map_none, hids, List.map_append, true_and]
    exact congrArg (· ++ _) (map_brought_brought s.units)
  | some row =>
    refine ⟨rfl, ?_⟩
    simp only [Option.map_some, markBaseline_eq, withUnits, List.map_map]
    refine List.map_congr_left fun r _ => ?_
    by_cases hid : r.id = row.id <;> simp [UnitRow.brought, hid]

/-- What a unit owned is cleared by the id of the unit, which the marks do not change. -/
theorem start_markBaseline (s : Store) (u : UnitRecord) :
    Writer.start s.markBaseline u = (Writer.start s u).withUnits (s.markBaseline.enterUnit u).2.units := by
  have hid := (enterUnit_markBaseline s u).1
  have hstart : ∀ s : Store, Writer.start s u =
      ⟨((s.withUnits (s.enterUnit u).2.units).deleteUnitRows (s.enterUnit u).1), (s.enterUnit u).1, [],
        s.ownedBy (s.enterUnit u).1, [], [], []⟩ := by
    intro s
    have hrest : (s.enterUnit u).2 = s.withUnits (s.enterUnit u).2.units := Writer.enterUnit_eq s u
    show Writer.mk ((s.enterUnit u).2.deleteUnitRows _) _ _ ((s.enterUnit u).2.ownedBy _) _ _ _ = _
    rw [hrest]
    rfl
  rw [hstart s.markBaseline, hstart s, hid]
  rfl

/-- The marks decide nothing about what is written. -/
theorem replaceUnit_markBaseline (s : Store) (u : UnitRecord) :
    (s.markBaseline.replaceUnit canon u).Alike (s.replaceUnit canon u) := by
  have hmarked : s.markBaseline.replaceUnit canon u =
      (s.replaceUnit canon u).withUnits (s.markBaseline.enterUnit u).2.units := by
    show ((Writer.start s.markBaseline u).takeRecords canon u).finish = _
    rw [start_markBaseline, Writer.takeRecords_withUnits]
    rfl
  -- over the rows that it has, the writer is itself, so no record changes them
  have hown : s.replaceUnit canon u = (s.replaceUnit canon u).withUnits (s.enterUnit u).2.units := by
    show ((Writer.start s u).takeRecords canon u).finish = _
    have hself : Writer.start s u = (Writer.start s u).withUnits (s.enterUnit u).2.units := rfl
    rw [hself, Writer.takeRecords_withUnits]
    rfl
  rw [hmarked, hown]
  exact alike_withUnits (enterUnit_markBaseline s u).2

/-- Alike stores stay so when a unit is written to both, ... -/
theorem Alike.replaceUnit (h : s.Alike t) (u : UnitRecord) : (s.replaceUnit canon u).Alike (t.replaceUnit canon u) := by
  have hs : (s.markBaseline.replaceUnit canon u).Alike (s.replaceUnit canon u) := replaceUnit_markBaseline s u
  have ht : (t.markBaseline.replaceUnit canon u).Alike (t.replaceUnit canon u) := replaceUnit_markBaseline t u
  unfold Alike at h hs ht ⊢
  rw [← hs, h, ht]

/-- ... or several of them one after the other, ... -/
theorem Alike.replaceAll (us : List UnitRecord) : ∀ {s t : Store}, s.Alike t →
    (us.foldl (Store.replaceUnit canon) s).Alike (us.foldl (Store.replaceUnit canon) t) := by
  induction us with
  | nil => exact fun h => h
  | cons u us ih => exact fun h => ih (h.replaceUnit u)

/-- ... and when the pass ends. -/
theorem Alike.purge (h : s.Alike t) : s.purgeOrphans.bump.Alike t.purgeOrphans.bump := by
  have hcommutes : ∀ s : Store, s.purgeOrphans.bump.markBaseline = s.markBaseline.purgeOrphans.bump := fun _ => rfl
  unfold Alike at h ⊢
  rw [hcommutes, hcommutes, h]

end Store

end CrossIndex
