/-
Units are written whole or not at all. A write that succeeds has met no fault and leaves what
`writeUnit` gives; any other one, whether the unit has a defect or the storage fails at the beginning,
at a statement or at the commit, leaves the store as it was.
-/
import CrossIndex.Store.Transaction

namespace CrossIndex

@[simp] theorem Fault.failure_isStorage (fault : Fault) : fault.failure.isStorage = true := by
  cases fault with
  | opening f => exact f.property
  | statement records f => exact f.property
  | closing f => exact f.property

namespace Store

variable {canon : String → String} {s : Store} {u : UnitRecord} {fault : Option Fault}

/-- Taking in the records one by one comes to the draft of the unit. -/
theorem draftedUntil_of_length_le {n : Nat} (h : (Writer.steps canon u).length ≤ n) :
    s.draftedUntil canon u n = s.drafted canon u := by
  unfold draftedUntil drafted
  rw [List.take_of_length_le h]
  simp only [Writer.steps, List.foldl_append, List.foldl_map]

/-- Rolling back gives the store back, wherever the write is broken off. -/
theorem commitUnit_fault (fault : Fault) (h : u.check = .ok ()) :
    s.commitUnit canon (some fault) u = (.error fault.failure, s) := by
  simp only [commitUnit, writeUnit, h]
  rfl

theorem commitUnit_none (h : u.check = .ok ()) : s.commitUnit canon none u = (.ok (), s.replaceUnit canon u) := by
  simp only [commitUnit, writeUnit, h]
  rfl

theorem commitUnit_defect {d : Defect} (h : u.check = .error d) :
    s.commitUnit canon fault u = (.error (d.failure u.indexFile), s) := by
  simp only [commitUnit, writeUnit, h]

theorem commitUnit_of_ok (h : (s.commitUnit canon fault u).1 = .ok ()) :
    fault = none ∧ s.writeUnit canon u = .ok (s.commitUnit canon fault u).2 := by
  cases hcheck : u.check with
  | error d =>
    rw [commitUnit_defect hcheck] at h
    cases h
  | ok _ =>
    cases fault with
    | some fault =>
      rw [commitUnit_fault fault hcheck] at h
      cases h
    | none => exact ⟨rfl, by rw [commitUnit_none hcheck, writeUnit, hcheck]⟩

theorem commitUnit_of_error {f : Failure} (h : (s.commitUnit canon fault u).1 = .error f) :
    (s.commitUnit canon fault u).2 = s := by
  cases hcheck : u.check with
  | error d => rw [commitUnit_defect hcheck]
  | ok _ =>
    cases fault with
    | some fault => rw [commitUnit_fault fault hcheck]
    | none =>
      rw [commitUnit_none hcheck] at h
      cases h

/-- A unit that is loaded and written has met no fault, and is written as on any other storage. -/
theorem loadInto_of_ok {src : Source} {v : UnitStamp} (h : (s.loadInto canon src fault v).1 = .ok ()) :
    fault = none ∧ ∃ r, src.load v = .ok r ∧ s.writeUnit canon r = .ok (s.loadInto canon src fault v).2 := by
  unfold loadInto at h ⊢
  cases hload : src.load v with
  | error f =>
    rw [hload] at h
    cases h
  | ok r =>
    rw [hload] at h
    obtain ⟨hnone, hwrite⟩ := commitUnit_of_ok h
    exact ⟨hnone, r, rfl, hwrite⟩

/-- A unit that is not loaded and written leaves the store as it was. -/
theorem loadInto_of_error {src : Source} {v : UnitStamp} {f : Failure}
    (h : (s.loadInto canon src fault v).1 = .error f) : (s.loadInto canon src fault v).2 = s := by
  unfold loadInto at h ⊢
  cases hload : src.load v with
  | error e => rfl
  | ok r =>
    rw [hload] at h
    exact commitUnit_of_error h

/-- A fault makes no difference to a unit that is loaded and written but for breaking the write off. -/
theorem loadInto_cases (canon : String → String) (src : Source) (fault : Option Fault) (s : Store) (v : UnitStamp) :
    s.loadInto canon src fault v = s.loadInto canon src none v ∨
      ∃ x, fault = some x ∧ s.loadInto canon src fault v = (.error x.failure, s) := by
  unfold loadInto
  cases src.load v with
  | error f => exact .inl rfl
  | ok u =>
    cases fault with
    | none => exact .inl rfl
    | some x =>
      cases hcheck : u.check with
      | error d => exact .inl ((commitUnit_defect hcheck).trans (commitUnit_defect hcheck).symm)
      | ok _ => exact .inr ⟨x, rfl, commitUnit_fault x hcheck⟩

end Store

end CrossIndex
