/-
Updates on a copy and updates in place. The threshold of staging decides only where a pass writes, so
two updates that differ in it lead to the same store, reports and counts as long as the storage does
not fail. When it fails at a unit, as this is loaded or as it is written, the run ends with that
failure: the copy is given up, and in place the units written before stay. Whether the store itself can
be written, a staged run finds out only at its end, when the copy is to take the place of the store.
-/
import CrossIndex.Database.Update
import CrossIndex.Proofs.Store.Extent
import CrossIndex.Proofs.Update.Converge
import CrossIndex.Proofs.Update.Ingest

namespace CrossIndex

/-- The settings with another threshold of staging. -/
def Config.staging (c : Config) (threshold : Nat) : Config :=
  { c with stagingThreshold := threshold }

/-- The handle with another threshold of staging. -/
def Database.staging (db : Database) (threshold : Nat) : Database :=
  { db with config := db.config.staging threshold }

/-- A summary that does not tell whether the pass was staged. -/
def Summary.unstaged (m : Summary) : Summary :=
  { m with staged := false }

/-- The same outcome, staged or not. -/
def SameOutcome (a b : Except Failure Summary) : Prop :=
  a.map Summary.unstaged = b.map Summary.unstaged

instance (a b : Except Failure Summary) : Decidable (SameOutcome a b) :=
  inferInstanceAs (Decidable (_ = _))

/-- Two updates that lead to the same, staged or not. -/
structure UpdateResult.Agrees (a b : UpdateResult) : Prop where
  outcome : SameOutcome a.outcome b.outcome
  store : a.store = b.store
  reports : a.reports = b.reports
  progress : a.progress = b.progress

theorem UpdateResult.Agrees.refl (a : UpdateResult) : a.Agrees a :=
  ⟨rfl, rfl, rfl, rfl⟩

/-- Outcomes that are the same fail alike, or have summaries that differ in the mark only. -/
theorem SameOutcome.cases {a b : Except Failure Summary} (h : SameOutcome a b) :
    (∃ f, a = .error f ∧ b = .error f) ∨ ∃ m n, a = .ok m ∧ b = .ok n ∧ m.unstaged = n.unstaged := by
  unfold SameOutcome at h
  cases a with
  | error f =>
    cases b with
    | error g =>
      left
      injection h with h
      subst h
      exact ⟨f, rfl, rfl⟩
    | ok n => cases h
  | ok m =>
    cases b with
    | error g => cases h
    | ok n =>
      right
      injection h with h
      exact ⟨m, n, rfl, rfl, h⟩

namespace Store

variable {canon : String → String} {config : Config} {src : Source} {force : Bool} {s : Store}
  {units : List UnitStamp} {storage : Storage} {baseline : Option Baseline}

/-! ## A pass that has been run -/

/-- After a pass that ends well the store is the one the pass leads to, also when a copy to which
nothing was written has not been taken over. -/
theorem updateSeeded_of_run {p : Pass}
    (h : Pass.run canon src .nothing (Plan.make config force s units) s = (p, none)) :
    s.updateSeeded canon config src force units =
      { outcome := .ok
          { offered := units.length, ingested := p.ingested,
            skipped := units.length - (Plan.make config force s units).staleCount, failed := p.failed,
            pruned := p.pruned,
            staged := config.stagingThreshold ≤ (Plan.make config force s units).staleCount }
        store := p.store
        reports := p.reports
        progress := p.progress } := by
  rw [updateSeeded_eq]
  simp only [h]
  congr 1
  split
  · rename_i hidle
    simp only [Bool.and_eq_true, Bool.not_eq_true'] at hidle
    exact (Pass.run_store_of_idle h hidle.2).symm
  · rfl

theorem updateSeeded_of_failure {p : Pass} {f : Failure}
    (h : Pass.run canon src .nothing (Plan.make config force s units) s = (p, some f)) :
    s.updateSeeded canon config src force units =
      { outcome := .error f
        store := if config.stagingThreshold ≤ (Plan.make config force s units).staleCount then s else p.store
        reports := p.reports
        progress := p.progress } := by
  rw [updateSeeded_eq]
  simp only [h]

theorem update_store_of_units (hunits : src.units = .ok units) :
    (s.update canon config src force none).store = (s.updateSeeded canon config src force units).store := by
  simp [update_eq, seed, hunits]

/-- A pass either leads to its end, or to a failure of the storage. -/
theorem run_of_storageHolds (h : StorageHolds (s.updateSeeded canon config src force units).outcome) :
    src.Serves (Plan.make config force s units).offered ∧
      ∃ p, Pass.run canon src .nothing (Plan.make config force s units) s = (p, none) := by
  rcases Pass.run_cases canon src (Plan.make config force s units) s with ⟨hserves, hrun⟩ |
    ⟨before, u, rest, f, -, -, -, hf, hrun⟩
  · exact ⟨hserves, _, hrun⟩
  · rw [updateSeeded_of_failure hrun] at h
    rw [h f rfl] at hf
    cases hf

theorem updateSeeded_agrees {k₁ k₂ : Nat}
    (h : StorageHolds (s.updateSeeded canon (config.staging k₁) src force units).outcome) :
    (s.updateSeeded canon (config.staging k₁) src force units).Agrees
      (s.updateSeeded canon (config.staging k₂) src force units) := by
  obtain ⟨-, p, hrun⟩ := run_of_storageHolds h
  -- neither the plan nor the run reads the threshold
  have hrun₂ : Pass.run canon src .nothing (Plan.make (config.staging k₂) force s units) s = (p, none) := hrun
  rw [updateSeeded_of_run hrun, updateSeeded_of_run hrun₂]
  exact ⟨rfl, rfl, rfl, rfl⟩

theorem update_agrees {k₁ k₂ : Nat} (h : StorageHolds (s.update canon (config.staging k₁) src force baseline).outcome) :
    (s.update canon (config.staging k₁) src force baseline).Agrees
      (s.update canon (config.staging k₂) src force baseline) := by
  rw [update_eq] at h
  rw [update_eq, update_eq]
  cases hseed : s.seed baseline with
  | error f => exact .refl _
  | ok seeded =>
    obtain ⟨seeded, copied, seedReports⟩ := seeded
    cases hunits : src.units with
    | error f => exact .refl _
    | ok units =>
      simp only [hseed, hunits] at h ⊢
      have hagrees : (seeded.updateSeeded canon (config.staging k₁) src force units).Agrees
          (seeded.updateSeeded canon (config.staging k₂) src force units) :=
        updateSeeded_agrees (storageHolds_map.1 h)
      refine ⟨?_, hagrees.store, by rw [hagrees.reports], hagrees.progress⟩
      rcases hagrees.outcome.cases with ⟨f, h₁, h₂⟩ | ⟨m, n, h₁, h₂, hmn⟩
      · rw [h₁, h₂]
        rfl
      · rw [h₁, h₂]
        show Except.ok _ = Except.ok _
        congr 1
        exact congrArg (fun x : Summary => { x with baselineCopied := copied }) hmn

/-- Where the storage fails neither staged nor in place, the two agree. -/
theorem updateOn_agrees {k₁ k₂ : Nat}
    (h₁ : StorageHolds (s.updateOn storage canon (config.staging k₁) src force baseline).outcome)
    (h₂ : StorageHolds (s.updateOn storage canon (config.staging k₂) src force baseline).outcome) :
    (s.updateOn storage canon (config.staging k₁) src force baseline).Agrees
      (s.updateOn storage canon (config.staging k₂) src force baseline) := by
  have hsame := updateOn_of_holds h₁
  rw [hsame] at h₁
  rw [hsame, updateOn_of_holds h₂]
  exact update_agrees h₁

end Store

/-! ## A store that cannot be written -/

namespace Pass

variable {canon : String → String} {src : Source} {f : StorageFailure}

theorem ingest_of_fault {fault : Fault} {u : UnitStamp} {p q : Pass}
    (h : p.ingest canon src (some fault) u = (q, none)) : q.ingested = p.ingested ∧ q.pruned = p.pruned := by
  unfold ingest at h
  split at h
  · rename_i hload
    cases (Store.loadInto_of_ok (congrArg Prod.fst hload)).1
  · split at h
    · cases h
    · cases h
      exact ⟨rfl, rfl⟩

theorem ingestAll_everything {total : Nat} : ∀ {offered : List (UnitStamp × Bool)} {p q : Pass},
    p.ingestAll canon src (.everything f) total offered = (q, none) → q.ingested = p.ingested ∧ q.pruned = p.pruned
  | [], _, _, h => by
    cases h
    exact ⟨rfl, rfl⟩
  | (u, stale) :: offered, p, q, h => by
    rw [ingestAll] at h
    split at h
    · split at h
      · cases h
      · rename_i p' hp'
        obtain ⟨hi, hp⟩ := ingest_of_fault hp'
        obtain ⟨hi', hp⟩ := ingestAll_everything h
        exact ⟨hi'.trans hi, hp.trans ‹_›⟩
    · exact ingestAll_everything (p := p.tick total) h

/-- Where nothing can be written, a run that ends well has nothing to write. -/
theorem run_everything {plan : Plan} {s : Store} {q : Pass}
    (h : Pass.run canon src (.everything f) plan s = (q, none)) : q.wrote = false := by
  obtain ⟨p, hall, hpruned, hend⟩ := run_stages h
  obtain ⟨hi, hp⟩ := ingestAll_everything hall
  cases hmissing : plan.missing with
  | cons file files =>
    simp [hmissing, pruneAll, Faults.everything] at hpruned
  | nil =>
    rw [hmissing] at hend
    rw [← conclude_of_none hend, finish_wrote]
    exact wrote_eq_false.2 ⟨hi, hp⟩

/-- What is missing is there to be pruned. -/
theorem unit?_of_missing {config : Config} {force : Bool} {s : Store} {units : List UnitStamp} {file : String}
    (h : file ∈ (Plan.make config force s units).missing) : ∃ row, s.unit? file = some row := by
  unfold Plan.make Plan.localUnits at h
  dsimp only at h
  split at h
  · obtain ⟨row, hrow, rfl⟩ := List.mem_map.1 (List.mem_mergeSort.1 (List.mem_filter.1 h).1)
    rw [← Option.isSome_iff_exists]
    exact List.find?_isSome.2 ⟨row, (List.mem_filter.1 hrow).1, by simp⟩
  · cases h

variable {config : Config} {force : Bool} {s : Store} {units : List UnitStamp} {q : Pass}

/-- A run that has written nothing has served all units, none of them usable, and has missed none. -/
theorem nothing_to_write (h : Pass.run canon src .nothing (Plan.make config force s units) s = (q, none))
    (hw : q.wrote = false) : src.Serves (Plan.make config force s units).offered ∧
      src.usable (Plan.make config force s units).offered = [] ∧ (Plan.make config force s units).missing = [] := by
  rcases run_cases canon src (Plan.make config force s units) s with ⟨hserves, hrun⟩ | ⟨_, _, _, _, -, -, -, -, hrun⟩
  · obtain ⟨rfl, -⟩ := Prod.mk.inj (h.symm.trans hrun)
    let p := Pass.after canon src (Plan.make config force s units).offered.length { store := s }
      (Plan.make config force s units).offered
    rw [finish_wrote] at hw
    obtain ⟨hi, hp⟩ : ((Plan.make config force s units).missing.foldl prune p).ingested = 0 ∧
        ((Plan.make config force s units).missing.foldl prune p).pruned = 0 := wrote_eq_false.1 hw
    rw [(pruneAll_frame _ p).1] at hi
    have husable : src.usable (Plan.make config force s units).offered = [] := by
      have hlength : p.ingested = 0 + (src.usable (Plan.make config force s units).offered).length := rfl
      exact List.eq_nil_of_length_eq_zero (by omega)
    refine ⟨hserves, husable, ?_⟩
    -- the first of those that are missing would have been pruned
    cases hfiles : (Plan.make config force s units).missing with
    | nil => rfl
    | cons file files =>
      obtain ⟨row, hrow⟩ := unit?_of_missing (hfiles ▸ List.mem_cons_self)
      have hrow' : p.store.unit? file = some row := by
        simpa [p, after, husable] using hrow
      have hpruned : (p.prune file).pruned = p.pruned + 1 := by
        unfold prune
        rw [hrow']
      have hrest := (pruneAll_frame files (p.prune file)).2.2.2.2.1
      rw [hfiles, List.foldl_cons] at hp
      omega
  · cases (Prod.mk.inj (h.symm.trans hrun)).2

/-- A run with nothing to write ends well where nothing can be written. -/
theorem run_everything_of_idle (f : StorageFailure)
    (h : Pass.run canon src .nothing (Plan.make config force s units) s = (q, none)) (hw : q.wrote = false) :
    Pass.run canon src (.everything f) (Plan.make config force s units) s = (q, none) := by
  obtain ⟨hserves, husable, hmissing⟩ := nothing_to_write h hw
  have hspared : (Faults.everything f).Spares src 0 (Plan.make config force s units).offered := by
    intro i v r hv hr
    have hmem : r ∈ src.usable (Plan.make config force s units).offered :=
      Source.mem_usable.2 ⟨v, List.mem_of_getElem? hv, hr⟩
    rw [husable] at hmem
    cases hmem
  rw [run_of_serves hserves, hmissing, List.foldl_nil] at h
  obtain ⟨rfl, -⟩ := Prod.mk.inj h
  rw [finish_wrote] at hw
  unfold run
  rw [ingestAll_of_spares hserves hspared, hmissing]
  simp only [pruneAll, conclude, hw]

end Pass

namespace Store

variable {canon : String → String} {config : Config} {src : Source} {force : Bool} {s : Store}
  {units : List UnitStamp} {storage : Storage} {baseline : Option Baseline} {f : StorageFailure}

theorem idle_of_readOnly (h : StorageHolds (s.updateSeededOn (.readOnly f) canon config src force units).outcome) :
    ∃ p, Pass.run canon src .nothing (Plan.make config force s units) s = (p, none) ∧ p.wrote = false := by
  unfold updateSeededOn at h
  by_cases hstaged : config.stagingThreshold ≤ (Plan.make config force s units).staleCount
  · simp only [hstaged, decide_true, if_true, Storage.readOnly, Storage.faults] at h
    rcases hrun : Pass.run canon src .nothing (Plan.make config force s units) s with ⟨p, _ | g⟩
    · refine ⟨p, rfl, ?_⟩
      cases hw : p.wrote with
      | false => rfl
      | true =>
        simp only [hrun, hw, Bool.and_true, if_true] at h
        cases (h f.val rfl).symm.trans f.property
    · simp only [hrun] at h
      cases (h g rfl).symm.trans (Pass.run_isStorage hrun)
  · simp only [hstaged, decide_false, Bool.false_eq_true, if_false, Storage.readOnly, Storage.faults] at h
    rcases hrun : Pass.run canon src (.everything f) (Plan.make config force s units) s with ⟨p, _ | g⟩
    · exact ⟨p, Pass.run_of_none hrun, Pass.run_everything hrun⟩
    · simp only [hrun] at h
      cases (h g rfl).symm.trans (Pass.run_isStorage hrun)

theorem readOnly_of_idle {p : Pass} (h : Pass.run canon src .nothing (Plan.make config force s units) s = (p, none))
    (hw : p.wrote = false) : StorageHolds (s.updateSeededOn (.readOnly f) canon config src force units).outcome := by
  have hplace := Pass.run_everything_of_idle f h hw
  intro g hg
  unfold updateSeededOn at hg
  by_cases hstaged : config.stagingThreshold ≤ (Plan.make config force s units).staleCount <;>
    simp [hstaged, Storage.readOnly, Storage.faults, h, hplace, hw] at hg

/-- If a store that cannot be written is brought up to date without a failure of the storage, it is so
with any threshold: there was nothing to be written. -/
theorem updateOn_readOnly_holds {k₁ : Nat} (k₂ : Nat)
    (h : StorageHolds (s.updateOn (.readOnly f) canon (config.staging k₁) src force baseline).outcome) :
    StorageHolds (s.updateOn (.readOnly f) canon (config.staging k₂) src force baseline).outcome := by
  unfold updateOn at h ⊢
  cases hseed : s.seedOn (.readOnly f) baseline with
  | error e =>
    rw [hseed] at h
    exact h
  | ok seeded =>
    obtain ⟨seeded, copied, seedReports⟩ := seeded
    cases hunits : src.units with
    | error e =>
      simp only [hseed, hunits] at h
      exact h
    | ok units =>
      simp only [hseed, hunits] at h
      obtain ⟨p, hrun, hw⟩ := idle_of_readOnly (storageHolds_map.1 h)
      -- neither the plan nor the run reads the threshold
      have hrun₂ : Pass.run canon src .nothing (Plan.make (config.staging k₂) force seeded units) seeded = (p, none) :=
        hrun
      exact storageHolds_map.2 (readOnly_of_idle hrun₂ hw)

/-! ## A failure of the storage at a unit -/

/-- The store after the stale units that come before a position, load and have no defect have been
written, in the order in which they are offered. -/
def writtenBefore (canon : String → String) (src : Source) (offered : List (UnitStamp × Bool)) (i : Nat)
    (s : Store) : Store :=
  (src.usable (offered.take i)).foldl (replaceUnit canon) s

/-- A pass over a store meets its first failure of the storage at the unit at a position, as this is loaded
or as it is written. -/
structure BreaksAt (canon : String → String) (src : Source) (faults : Faults) (offered : List (UnitStamp × Bool))
    (s : Store) (i : Nat) (f : Failure) : Prop where
  unit : ∃ u, offered[i]? = some (u, true) ∧
    ((s.writtenBefore canon src offered i).loadInto canon src (faults.unit i) u).1 = .error f
  isStorage : f.isStorage = true
  /-- The units before it do not fail with the storage as they are loaded ... -/
  serves : src.Serves (offered.take i)
  /-- ... or as they are written. -/
  spares : faults.Spares src 0 (offered.take i)

/-- What makes a pass break off: the storage fails as the unit is loaded, or a fault comes up as a unit is written
that loads and has no defect. -/
theorem breaksAt_iff {faults : Faults} {offered : List (UnitStamp × Bool)} {i : Nat} {f : Failure} :
    s.BreaksAt canon src faults offered i f ↔
      (src.Serves (offered.take i) ∧ faults.Spares src 0 (offered.take i)) ∧ ∃ u, offered[i]? = some (u, true) ∧
        ((src.fetch u = .error f ∧ f.isStorage = true) ∨
          ∃ r fault, src.fetch u = .ok r ∧ faults.unit i = some fault ∧ f = fault.failure) := by
  constructor
  · rintro ⟨⟨u, hu, hfails⟩, hf, hserves, hspares⟩
    refine ⟨⟨hserves, hspares⟩, u, hu, ?_⟩
    cases hfetch : src.fetch u with
    | error g =>
      rw [loadInto_of_refused hfetch] at hfails
      obtain rfl := Except.error.inj hfails
      exact .inl ⟨rfl, hf⟩
    | ok r =>
      cases hfault : faults.unit i with
      | none =>
        rw [hfault, loadInto_of_fetch hfetch] at hfails
        cases hfails
      | some fault =>
        rw [hfault, loadInto_of_fault hfetch] at hfails
        exact .inr ⟨r, fault, rfl, rfl, (Except.error.inj hfails).symm⟩
  · rintro ⟨⟨hserves, hspares⟩, u, hu, ⟨hfetch, hf⟩ | ⟨r, fault, hfetch, hfault, rfl⟩⟩
    · exact ⟨⟨u, hu, by rw [loadInto_of_refused hfetch]⟩, hf, hserves, hspares⟩
    · exact ⟨⟨u, hu, by rw [hfault, loadInto_of_fault hfetch]⟩, fault.failure_isStorage, hserves, hspares⟩

theorem writtenBefore_generation (canon : String → String) (src : Source) (offered : List (UnitStamp × Bool)) (i : Nat)
    (s : Store) : (s.writtenBefore canon src offered i).generation = s.generation :=
  foldl_replaceUnit_generation canon _ s

/-- The run stops there, with nothing of the unit written. -/
theorem BreaksAt.run {faults : Faults} {plan : Plan} {i : Nat} {f : Failure}
    (h : s.BreaksAt canon src faults plan.offered i f) : Pass.run canon src faults plan s =
      (Pass.after canon src plan.offered.length { store := s } (plan.offered.take i), some f) := by
  obtain ⟨u, hi, hu⟩ := h.unit
  obtain ⟨hlt, hget⟩ := List.getElem?_eq_some_iff.1 hi
  have hsplit : plan.offered = plan.offered.take i ++ (u, true) :: plan.offered.drop (i + 1) := by
    rw [← hget, List.getElem_cons_drop, List.take_append_drop]
  refine Pass.run_of_fails hsplit h.serves h.spares ?_ h.isStorage
  rw [List.length_take, Nat.min_eq_left hlt.le]
  exact hu

theorem updateOn_of_breaks {seeded : Store} {copied : Bool} {seedReports : List String} {i : Nat} {f : Failure}
    (hseed : s.seedOn storage baseline = .ok (seeded, copied, seedReports)) (hunits : src.units = .ok units)
    (hcopy : config.stagingThreshold ≤ (Plan.make config force seeded units).staleCount → storage.copying = none)
    (h : seeded.BreaksAt canon src
      (storage.faults (config.stagingThreshold ≤ (Plan.make config force seeded units).staleCount))
      (Plan.make config force seeded units).offered i f) :
    (s.updateOn storage canon config src force baseline).outcome = .error f ∧
      (s.updateOn storage canon config src force baseline).store =
        if config.stagingThreshold ≤ (Plan.make config force seeded units).staleCount then seeded
        else seeded.writtenBefore canon src (Plan.make config force seeded units).offered i := by
  unfold updateOn updateSeededOn
  simp only [hseed, hunits, h.run]
  by_cases hstaged : config.stagingThreshold ≤ (Plan.make config force seeded units).staleCount
  · simp [hstaged, hcopy hstaged, Except.map]
  · simp [hstaged, Except.map, Pass.after, writtenBefore]

/-- Where the storage fails in loading only. -/
theorem update_of_failure {seeded : Store} {copied : Bool} {seedReports : List String}
    {i : Nat} {u : UnitStamp} {f : Failure} (hseed : s.seed baseline = .ok (seeded, copied, seedReports))
    (hunits : src.units = .ok units) (hi : (Plan.make config force seeded units).offered[i]? = some (u, true))
    (hserves : src.Serves ((Plan.make config force seeded units).offered.take i)) (hu : src.fetch u = .error f)
    (hf : f.isStorage = true) :
    (s.update canon config src force baseline).outcome = .error f ∧
      (s.update canon config src force baseline).store =
        if config.stagingThreshold ≤ (Plan.make config force seeded units).staleCount then seeded
        else (src.usable ((Plan.make config force seeded units).offered.take i)).foldl (replaceUnit canon) seeded := by
  have hfaults : ∀ staged, Storage.sound.faults staged = .nothing := by
    intro staged
    cases staged <;> rfl
  have hseedOn : s.seedOn .sound baseline = .ok (seeded, copied, seedReports) := (seedOn_sound s baseline).trans hseed
  refine updateOn_of_breaks hseedOn hunits (fun _ => rfl) ?_
  rw [hfaults]
  exact breaksAt_iff.2 ⟨⟨hserves, Faults.nothing_spares⟩, u, hi, .inl ⟨hu, hf⟩⟩

theorem updateSeeded_staged {m : Summary} (h : (s.updateSeeded canon config src force units).outcome = .ok m) :
    m.staged = true ↔ config.stagingThreshold ≤ (Plan.make config force s units).staleCount := by
  rcases hrun : Pass.run canon src .nothing (Plan.make config force s units) s with ⟨p, _ | f⟩
  · rw [updateSeeded_of_run hrun] at h
    injection h with h
    rw [← h]
    exact decide_eq_true_iff
  · rw [updateSeeded_of_failure hrun] at h
    cases h

/-! ## A copy that cannot take the place of the store -/

/-- A staged pass over a sound copy that has changed something fails if the copy cannot take over. -/
theorem updateSeededOn_of_takeOver {g : StorageFailure} {m : Summary}
    (hstaged : config.stagingThreshold ≤ (Plan.make config force s units).staleCount)
    (hcopying : storage.copying = none) (honCopy : storage.onCopy = .nothing) (htakeOver : storage.takeOver = some g)
    (hm : (s.updateSeeded canon config src force units).outcome = .ok m) (hchanged : 0 < m.ingested ∨ 0 < m.pruned) :
    (s.updateSeededOn storage canon config src force units).outcome = .error g.val ∧
      (s.updateSeededOn storage canon config src force units).store = s := by
  rcases hrun : Pass.run canon src .nothing (Plan.make config force s units) s with ⟨p, _ | f⟩
  · rw [updateSeeded_of_run hrun] at hm
    injection hm with hm
    have hw : p.wrote = true := by
      rw [← hm] at hchanged
      simpa [Pass.wrote] using hchanged
    unfold updateSeededOn
    simp [hstaged, hcopying, Storage.faults, honCopy, hrun, hw, htakeOver]
  · rw [updateSeeded_of_failure hrun] at hm
    cases hm

/-- Otherwise it does what it does on a storage that does not fail. -/
theorem updateSeededOn_of_granted
    (hstaged : config.stagingThreshold ≤ (Plan.make config force s units).staleCount)
    (hcopying : storage.copying = none) (honCopy : storage.onCopy = .nothing)
    (hgranted : ∀ m, (s.updateSeeded canon config src force units).outcome = .ok m → 0 < m.ingested ∨ 0 < m.pruned →
      storage.takeOver = none) :
    s.updateSeededOn storage canon config src force units = s.updateSeeded canon config src force units := by
  rcases hrun : Pass.run canon src .nothing (Plan.make config force s units) s with ⟨p, _ | f⟩
  · have htakeOver : (if p.wrote then storage.takeOver else none) = none := by
      split
      · rename_i hw
        exact hgranted _ (by rw [updateSeeded_of_run hrun]) (by simpa [Pass.wrote] using hw)
      · rfl
    rw [updateSeeded_eq]
    unfold updateSeededOn
    simp [hstaged, hcopying, Storage.faults, honCopy, hrun, htakeOver]
  · rw [updateSeeded_of_failure hrun]
    unfold updateSeededOn
    simp [hstaged, hcopying, Storage.faults, honCopy, hrun]

end Store

/-! ## Databases -/

namespace Database

variable {db : Database} {t : FileTree} {src : Source} {options : UpdateOptions}

/-- Two updates of a database that lead to the same, staged or not. -/
structure UpdateOutcome.Agrees (a b : UpdateOutcome) : Prop where
  outcome : SameOutcome a.outcome b.outcome
  reports : a.reports = b.reports
  progress : a.progress = b.progress

theorem run_agrees {s : Store} {k₁ k₂ : Nat} (h : StorageHolds ((db.staging k₁).run t src options s).outcome) :
    ((db.staging k₁).run t src options s).Agrees ((db.staging k₂).run t src options s) := by
  unfold run storage at h ⊢
  by_cases hw : db.connection.isWritable t = true
  · simp only [staging, hw, if_true] at h ⊢
    exact Store.update_agrees h
  · simp only [staging, hw] at h ⊢
    exact Store.updateOn_agrees h (Store.updateOn_readOnly_holds k₂ h)

theorem update_agrees {others : List Connection} {k₁ k₂ : Nat}
    (h : StorageHolds ((db.staging k₁).update t others src options).1.outcome) :
    ((db.staging k₁).update t others src options).1.Agrees ((db.staging k₂).update t others src options).1 ∧
      ((db.staging k₁).update t others src options).2 = ((db.staging k₂).update t others src options).2 := by
  unfold update at h ⊢
  have hstore : ∀ k, (db.staging k).store t = db.store t := fun _ => rfl
  rw [hstore] at h
  rw [hstore, hstore]
  cases hs : db.store t with
  | error f => exact ⟨⟨rfl, rfl, rfl⟩, rfl⟩
  | ok s =>
    simp only [hs] at h ⊢
    have hrun : StorageHolds ((db.staging k₁).run t src options s).outcome := by
      intro f hf
      apply h f
      simp only [hf]
    have hagrees : ((db.staging k₁).run t src options s).Agrees ((db.staging k₂).run t src options s) :=
      run_agrees hrun
    obtain ⟨houtcome, hstores, hreports, hprogress⟩ := hagrees
    rw [hstores, hreports, hprogress]
    rcases houtcome.cases with ⟨f, h₁, h₂⟩ | ⟨m, n, h₁, h₂, hmn⟩
    · rw [h₁, h₂]
      exact ⟨⟨rfl, rfl, rfl⟩, rfl⟩
    · rw [h₁, h₂]
      cases options.output with
      | none => exact ⟨⟨congrArg Except.ok hmn, rfl, rfl⟩, rfl⟩
      | some path =>
        -- the output is written from the same store, whatever the threshold
        have hwrite : ∀ k t, (db.staging k).writeOutput t others path = db.writeOutput t others path := fun _ _ => rfl
        have hset : ∀ k, (db.staging k).connection = db.connection := fun _ => rfl
        simp only [hwrite, hset]
        rcases db.writeOutput _ others path with ⟨_ | ⟨written, reports⟩, t'⟩
        · exact ⟨⟨rfl, rfl, rfl⟩, rfl⟩
        · refine ⟨⟨?_, rfl, rfl⟩, rfl⟩
          show Except.ok _ = Except.ok _
          congr 1
          exact congrArg (fun x : Summary => { x with outputWritten := written }) hmn

end Database

/-! ## Staged and in place -/

/-- How an update ends that goes by a plan for a seeded store and is staged from `k` stale units on, next to
the same update on a storage that does not fail. -/
structure StagingLaws (canon : String → String) (src : Source) (storage : Storage) (plan : Plan) (seeded : Store)
    (k : Nat) (result sound : UpdateResult) : Prop where
  /-- The summary tells whether the pass was staged. -/
  staged : ∀ m, result.outcome = .ok m → (m.staged = true ↔ k ≤ plan.staleCount)
  /-- If the storage of the copy fails at a unit, the copy is given up. -/
  onCopy : k ≤ plan.staleCount → storage.copying = none →
    ∀ i f, seeded.BreaksAt canon src storage.onCopy plan.offered i f →
      result.outcome = .error f ∧ result.store = seeded
  /-- If the storage of the store itself fails at a unit, the units before it are written, and that is all. -/
  inPlace : plan.staleCount < k → ∀ i f, seeded.BreaksAt canon src storage.inPlace plan.offered i f →
    result.outcome = .error f ∧ result.store = seeded.writtenBefore canon src plan.offered i ∧
      result.store.generation = seeded.generation
  /-- If only the store itself cannot be written, a staged pass goes on to its end. What it has changed is then
  given up with the failure to take it over ... -/
  refused : k ≤ plan.staleCount → storage.copying = none → storage.onCopy = .nothing →
    ∀ m g, sound.outcome = .ok m → 0 < m.ingested ∨ 0 < m.pruned → storage.takeOver = some g →
      result.outcome = .error g.val ∧ result.store = seeded
  /-- ... and if there is no such change or no such failure, all is as on a storage that does not fail. -/
  granted : k ≤ plan.staleCount → storage.copying = none → storage.onCopy = .nothing →
    (∀ m, sound.outcome = .ok m → 0 < m.ingested ∨ 0 < m.pruned → storage.takeOver = none) → result = sound

namespace Store

variable {canon : String → String} {config : Config} {src : Source} {force : Bool} {s seeded : Store}
  {units : List UnitStamp} {storage : Storage} {baseline : Option Baseline} {copied : Bool} {seedReports : List String}

theorem updateOn_of_seedOn (hseed : s.seedOn storage baseline = .ok (seeded, copied, seedReports))
    (hunits : src.units = .ok units) : s.updateOn storage canon config src force baseline =
      { seeded.updateSeededOn storage canon config src force units with
        outcome := (seeded.updateSeededOn storage canon config src force units).outcome.map fun summary =>
          { summary with baselineCopied := copied }
        reports := seedReports ++ (seeded.updateSeededOn storage canon config src force units).reports } := by
  unfold updateOn
  simp only [hseed, hunits]

theorem updateSeeded_of_update {m : Summary} (hseed : s.seed baseline = .ok (seeded, copied, seedReports))
    (hunits : src.units = .ok units) (h : (s.update canon config src force baseline).outcome = .ok m) :
    ∃ n, (seeded.updateSeeded canon config src force units).outcome = .ok n ∧
      m = { n with baselineCopied := copied } := by
  rw [update_eq] at h
  simp only [hseed, hunits] at h
  cases hout : (seeded.updateSeeded canon config src force units).outcome with
  | error f =>
    rw [hout] at h
    cases h
  | ok n =>
    rw [hout] at h
    exact ⟨n, rfl, (Except.ok.inj h).symm⟩

theorem updateOn_stagingLaws (hseed : s.seedOn storage baseline = .ok (seeded, copied, seedReports))
    (hunits : src.units = .ok units) :
    StagingLaws canon src storage (Plan.make config force seeded units) seeded config.stagingThreshold
      (s.updateOn storage canon config src force baseline) (s.update canon config src force baseline) where
  staged m hm := by
    have hholds : StorageHolds (s.updateOn storage canon config src force baseline).outcome := by
      intro f hf
      rw [hm] at hf
      cases hf
    rw [updateOn_of_holds hholds] at hm
    obtain ⟨n, hn, rfl⟩ := updateSeeded_of_update (seed_of_seedOn hseed) hunits hm
    have hstaged := updateSeeded_staged hn
    exact hstaged
  onCopy hk hcopying i f h := by
    have hbreaks : seeded.BreaksAt canon src (storage.faults (config.stagingThreshold ≤
        (Plan.make config force seeded units).staleCount)) (Plan.make config force seeded units).offered i f := by
      rwa [decide_eq_true hk]
    obtain ⟨houtcome, hstore⟩ := updateOn_of_breaks hseed hunits (fun _ => hcopying) hbreaks
    exact ⟨houtcome, hstore.trans (if_pos hk)⟩
  inPlace hk i f h := by
    have hnot : ¬ config.stagingThreshold ≤ (Plan.make config force seeded units).staleCount := Nat.not_le.2 hk
    have hbreaks : seeded.BreaksAt canon src (storage.faults (config.stagingThreshold ≤
        (Plan.make config force seeded units).staleCount)) (Plan.make config force seeded units).offered i f := by
      rwa [decide_eq_false hnot]
    obtain ⟨houtcome, hstore⟩ := updateOn_of_breaks hseed hunits (absurd · hnot) hbreaks
    rw [if_neg hnot] at hstore
    exact ⟨houtcome, hstore, hstore ▸ writtenBefore_generation ..⟩
  refused hk hcopying honCopy m g hm hchanged htakeOver := by
    obtain ⟨n, hn, rfl⟩ := updateSeeded_of_update (seed_of_seedOn hseed) hunits hm
    obtain ⟨houtcome, hstore⟩ := updateSeededOn_of_takeOver hk hcopying honCopy htakeOver hn hchanged
    rw [updateOn_of_seedOn hseed hunits]
    exact ⟨by rw [houtcome]; rfl, hstore⟩
  granted hk hcopying honCopy hgranted := by
    have hsound : s.seedOn .sound baseline = .ok (seeded, copied, seedReports) :=
      (seedOn_sound s baseline).trans (seed_of_seedOn hseed)
    have hupdate : s.update canon config src force baseline = _ := updateOn_of_seedOn hsound hunits
    rw [hupdate, updateOn_of_seedOn hseed hunits, updateSeededOn_of_granted hk hcopying honCopy fun n hn hchanged => ?_]
    · rfl
    · refine hgranted { n with baselineCopied := copied } ?_ hchanged
      rw [hupdate]
      show Except.map _ (seeded.updateSeeded canon config src force units).outcome = _
      rw [hn]
      rfl

end Store

/-- The threshold of staging shows in the summary alone where the storage fails neither staged nor in place;
on a storage that does not fail, and for a database with its output file, it is enough that one of the two
does not fail. Where the storage fails at a unit, as this is loaded or as it is written to the copy or in
place, the update ends with that failure: staged, it leaves the store as it was seeded, and in place, the
store with the usable units before that one written. A failure to write the store itself comes up in a
staged update only when the copy is taken over. -/
theorem staging_transparent (canon : String → String) (config : Config) (src : Source) (force : Bool)
    (baseline : Option Baseline) (s : Store) :
    (∀ storage k₁ k₂, StorageHolds (s.updateOn storage canon (config.staging k₁) src force baseline).outcome →
      StorageHolds (s.updateOn storage canon (config.staging k₂) src force baseline).outcome →
      (s.updateOn storage canon (config.staging k₁) src force baseline).Agrees
        (s.updateOn storage canon (config.staging k₂) src force baseline)) ∧
    (∀ k₁ k₂, StorageHolds (s.update canon (config.staging k₁) src force baseline).outcome →
      (s.update canon (config.staging k₁) src force baseline).Agrees
        (s.update canon (config.staging k₂) src force baseline)) ∧
    (∀ (db : Database) (t : FileTree) (others : List Connection) (options : Database.UpdateOptions) (k₁ k₂ : Nat),
      StorageHolds ((db.staging k₁).update t others src options).1.outcome →
      ((db.staging k₁).update t others src options).1.Agrees ((db.staging k₂).update t others src options).1 ∧
        ((db.staging k₁).update t others src options).2 = ((db.staging k₂).update t others src options).2) ∧
    ∀ storage seeded copied seedReports units, s.seedOn storage baseline = .ok (seeded, copied, seedReports) →
      src.units = .ok units → ∀ k,
        StagingLaws canon src storage (Plan.make config force seeded units) seeded k
          (s.updateOn storage canon (config.staging k) src force baseline)
          (s.update canon (config.staging k) src force baseline) := by
  refine ⟨fun storage k₁ k₂ h₁ h₂ => Store.updateOn_agrees h₁ h₂, fun k₁ k₂ h => Store.update_agrees h,
    fun db t others options k₁ k₂ h => Database.update_agrees h, ?_⟩
  intro storage seeded copied seedReports units hseed hunits k
  -- the plan does not read the threshold
  show StagingLaws canon src storage (Plan.make (config.staging k) force seeded units) seeded
    (config.staging k).stagingThreshold _ _
  exact Store.updateOn_stagingLaws hseed hunits

namespace Sample

/-- Two units in memory. -/
def calm : Source :=
  (MemorySource.ofUnits [recording 1 [declared], referring declared]).toSource

/-- The same units, of which the second cannot be read from disk. -/
def interrupted : Source :=
  calm.failingAt "b.ali" (Failure.of .io "read error")

/-- The same units, of which neither is well-formed. -/
def spoilt : Source :=
  (calm.failingAt "a.ali" (Failure.sourceDefect "a.ali" "truncated")).failingAt "b.ali"
    (Failure.sourceDefect "b.ali" "truncated")

/-- A tree with the file of a fresh store, and a handle to it. -/
def tree : FileTree := ⟨[], #[⟨.store Store.fresh, 0⟩], []⟩

def handle : Database := ⟨none, { file := 0 }, {}⟩

/-- A handle to that file which was found at a path that is gone. -/
def stray : Database := ⟨none, { file := 0, place := some ["x.db".toList] }, {}⟩

/-- There is no room for more. -/
def full : StorageFailure := ⟨Failure.ofStatement "database or disk is full", rfl⟩

/-- The write of the second unit is broken off when its source file has been taken in. -/
def secondTorn : Faults where
  unit n := if n = 1 then some (.statement 1 full) else none

/-- A storage that has no room for the second unit, be it on a copy or in place. -/
def filling : Storage where
  onCopy := secondTorn
  inPlace := secondTorn

/-- The freshness of the two units. -/
def offeredUnits : List UnitStamp := [⟨"a.ali", 1, none⟩, ⟨"b.ali", 1, none⟩]

/-- The store with the first unit. -/
def firstWritten : Store := Store.fresh.replaceUnit Path.normalize (recording 1 [declared])

theorem interrupted_breaks : Store.fresh.BreaksAt Path.normalize interrupted .nothing
    (Plan.make {} false Store.fresh offeredUnits).offered 1 (Failure.of .io "read error") := by
  refine Store.breaksAt_iff.2 ⟨⟨by decide +kernel, Faults.nothing_spares⟩, ⟨"b.ali", 1, none⟩, by decide +kernel, ?_⟩
  exact .inl ⟨by decide +kernel, rfl⟩

theorem secondTorn_breaks : Store.fresh.BreaksAt Path.normalize calm secondTorn
    (Plan.make {} false Store.fresh offeredUnits).offered 1 full.val := by
  refine Store.breaksAt_iff.2 ⟨⟨by decide +kernel, Faults.spares_take (by decide)⟩, ⟨"b.ali", 1, none⟩,
    by decide +kernel, ?_⟩
  exact .inr ⟨referring declared, .statement 1 full, by decide +kernel, rfl, rfl⟩

end Sample

open Sample in
/-- Two units agree staged and in place, and so do two that are reported and passed over on a store that
cannot be written. With the second unit unreadable, or broken off as it is written, the first one stays only in
place, and nothing stays of the second, though its file had been added. A copy that cannot be taken over
is given up. -/
theorem interrupted_staging :
    (Store.fresh.update Path.normalize (Config.staging {} 1) calm false none).Agrees
        (Store.fresh.update Path.normalize (Config.staging {} 100) calm false none) ∧
      ((handle.staging 1).update tree [] calm {}).2 = ((handle.staging 100).update tree [] calm {}).2 ∧
      (Store.fresh.updateOn (.readOnly full) Path.normalize (Config.staging {} 1) spoilt false none).Agrees
        (Store.fresh.updateOn (.readOnly full) Path.normalize (Config.staging {} 100) spoilt false none) ∧
      (Store.fresh.update Path.normalize (Config.staging {} 1) interrupted false none).store = Store.fresh ∧
      (Store.fresh.update Path.normalize (Config.staging {} 3) interrupted false none).store = firstWritten ∧
      ((Store.fresh.updateOn filling Path.normalize (Config.staging {} 1) calm false none).outcome = .error full.val ∧
        (Store.fresh.updateOn filling Path.normalize (Config.staging {} 1) calm false none).store = Store.fresh) ∧
      ((Store.fresh.updateOn filling Path.normalize (Config.staging {} 3) calm false none).outcome = .error full.val ∧
        (Store.fresh.updateOn filling Path.normalize (Config.staging {} 3) calm false none).store = firstWritten ∧
        (firstWritten.writtenUntil Path.normalize (referring declared) (.statement 1 full)).files ≠
          firstWritten.files) ∧
      ((Store.fresh.updateOn (.readOnly full) Path.normalize (Config.staging {} 1) calm false none).outcome =
          .error full.val ∧
        (Store.fresh.updateOn (.readOnly full) Path.normalize (Config.staging {} 1) calm false none).store =
          Store.fresh) := by
  obtain ⟨-, hstores, hdatabases, hcalm⟩ := staging_transparent Path.normalize {} calm false none Store.fresh
  obtain ⟨-, -, -, hinterrupted⟩ := staging_transparent Path.normalize {} interrupted false none Store.fresh
  obtain ⟨hagree, -⟩ := staging_transparent Path.normalize {} spoilt false none Store.fresh
  have hread := hinterrupted .sound Store.fresh false [] offeredUnits rfl (by decide +kernel)
  have hfilling := hcalm filling Store.fresh false [] offeredUnits rfl (by decide +kernel)
  have hreadOnly := hcalm (.readOnly full) Store.fresh false [] offeredUnits rfl (by decide +kernel) 1
  obtain ⟨m, hm, hchanged⟩ : ∃ m, (Store.fresh.update Path.normalize (Config.staging {} 1) calm false none).outcome =
      .ok m ∧ 0 < m.ingested :=
    ⟨{ offered := 2, ingested := 2, staged := true }, by decide +kernel, by decide⟩
  obtain ⟨htorn, hstore, -⟩ := (hfilling 3).inPlace (by decide +kernel) 1 _ secondTorn_breaks
  exact ⟨hstores 1 100 (by decide +kernel), (hdatabases handle tree [] {} 1 100 (by decide +kernel)).2,
    hagree (.readOnly full) 1 100 (by decide +kernel) (by decide +kernel),
    ((hread 1).onCopy (by decide +kernel) rfl 1 _ interrupted_breaks).2,
    ((hread 3).inPlace (by decide +kernel) 1 _ interrupted_breaks).2.1,
    (hfilling 1).onCopy (by decide +kernel) rfl 1 _ secondTorn_breaks,
    ⟨htorn, hstore, by decide +kernel⟩,
    hreadOnly.refused (by decide +kernel) rfl rfl m full hm (.inl hchanged) rfl⟩

open Sample in
/-- Where only the store itself cannot be written, the two need not end with the same failure: in place the write
of the first unit fails, while a staged update gets as far as the second, which cannot be read. -/
theorem stray_apart :
    Store.fresh.BreaksAt tree.canon interrupted (stray.storage tree).inPlace
        (Plan.make {} false Store.fresh offeredUnits).offered 0 Connection.notWritable ∧
      ((stray.staging 100).update tree [] interrupted {}).1.outcome = .error Connection.notWritable ∧
      ((stray.staging 1).update tree [] interrupted {}).1.outcome = .error (Failure.of .io "read error") ∧
      ¬ SameOutcome ((stray.staging 1).update tree [] interrupted {}).1.outcome
        ((stray.staging 100).update tree [] interrupted {}).1.outcome := by
  refine ⟨⟨⟨⟨"a.ali", 1, none⟩, by decide +kernel, by decide +kernel⟩, rfl, by decide +kernel, ?_⟩, by decide +kernel,
    by decide +kernel, by decide +kernel⟩
  intro i v r hv
  cases hv

end CrossIndex
