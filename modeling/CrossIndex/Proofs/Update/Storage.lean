/-
Updates on a storage that may fail. With nothing to fail a pass goes through its three stages; where
the storage may fail it stops at the first failure, and each failure it stops at is one of the
storage. So an update in which no failure of the storage comes up does all that it does on a storage
that does not fail.
-/
import CrossIndex.Proofs.Store.Transaction
import CrossIndex.Update

namespace CrossIndex

/-- Whether a failure, if there is one, has a property. -/
instance decidableForallError {ε α : Type} {x : Except ε α} {P : ε → Prop} [DecidablePred P] :
    Decidable (∀ e, x = .error e → P e) :=
  match x with
  | .ok _ => isTrue fun _ h => nomatch h
  | .error e => decidable_of_iff (P e) ⟨fun h _ he => Except.error.inj he ▸ h, fun h => h e rfl⟩

/-- No failure of the storage has come up. -/
def StorageHolds (outcome : Except Failure Summary) : Prop :=
  ∀ f, outcome = .error f → f.isStorage = false

instance (outcome : Except Failure Summary) : Decidable (StorageHolds outcome) :=
  decidableForallError

/-- What is added to a summary makes no difference. -/
theorem storageHolds_map {outcome : Except Failure Summary} {g : Summary → Summary} :
    StorageHolds (outcome.map g) ↔ StorageHolds outcome := by
  cases outcome with
  | error f => exact Iff.rfl
  | ok m => constructor <;> exact fun _ _ h => nomatch h

variable {canon : String → String} {src : Source} {faults : Faults} {total : Nat}

/-! ## The stages of a pass -/

@[simp] theorem Faults.nothing_unit (n : Nat) : Faults.nothing.unit n = none := rfl

namespace Pass

/-- A unit that meets no failure of the storage comes to the same as where there is no fault. -/
theorem ingest_of_none {fault : Option Fault} {u : UnitStamp} {p q : Pass}
    (h : p.ingest canon src fault u = (q, none)) : p.ingest canon src none u = (q, none) := by
  rcases Store.loadInto_cases canon src fault p.store u with hsame | ⟨x, -, hbroken⟩
  · unfold ingest at h ⊢
    rwa [hsame] at h
  · unfold ingest at h
    simp [hbroken] at h

theorem ingest_isStorage {fault : Option Fault} {u : UnitStamp} {p q : Pass} {f : Failure}
    (h : p.ingest canon src fault u = (q, some f)) : f.isStorage = true := by
  unfold ingest at h
  split at h
  · cases h
  · split at h
    · cases h
      assumption
    · cases h

theorem ingestAll_of_none : ∀ {offered : List (UnitStamp × Bool)} {p q : Pass},
    p.ingestAll canon src faults total offered = (q, none) →
      p.ingestAll canon src .nothing total offered = (q, none)
  | [], _, _, h => h
  | (u, stale) :: offered, p, q, h => by
    unfold ingestAll at h ⊢
    split at h
    · rename_i hstale
      rw [if_pos hstale]
      split at h
      · cases h
      · rename_i p' hp'
        rw [Faults.nothing_unit, ingest_of_none hp']
        exact ingestAll_of_none h
    · rename_i hstale
      rw [if_neg hstale]
      exact ingestAll_of_none h

theorem ingestAll_isStorage : ∀ {offered : List (UnitStamp × Bool)} {p q : Pass} {f : Failure},
    p.ingestAll canon src faults total offered = (q, some f) → f.isStorage = true
  | [], _, _, _, h => by cases h
  | (u, stale) :: offered, p, q, f, h => by
    unfold ingestAll at h
    split at h
    · split at h
      · rename_i hp'
        cases h
        exact ingest_isStorage hp'
      · exact ingestAll_isStorage h
    · exact ingestAll_isStorage h

theorem pruneAll_of_none : ∀ {files : List String} {p q : Pass}, p.pruneAll faults files = (q, none) →
    files.foldl prune p = q
  | [], _, _, h => (Prod.mk.inj h).1
  | file :: files, p, q, h => by
    rw [pruneAll] at h
    split at h
    · cases h
    · exact pruneAll_of_none (p := p.prune file) h

theorem pruneAll_isStorage : ∀ {files : List String} {p q : Pass} {f : Failure},
    p.pruneAll faults files = (q, some f) → f.isStorage = true
  | [], _, _, _, h => by cases h
  | file :: files, p, q, f, h => by
    unfold pruneAll at h
    split at h
    · rename_i f' _
      cases h
      exact f'.property
    · exact pruneAll_isStorage h

theorem pruneAll_nothing : ∀ (files : List String) (p : Pass), p.pruneAll .nothing files = (files.foldl prune p, none)
  | [], _ => rfl
  | _ :: files, p => pruneAll_nothing files (p.prune _)

theorem conclude_of_none {p q : Pass} (h : p.conclude faults = (q, none)) : p.finish = q := by
  unfold conclude at h
  split at h
  · cases h
  · cases h
  · exact (Prod.mk.inj h).1

theorem conclude_isStorage {p q : Pass} {f : Failure} (h : p.conclude faults = (q, some f)) : f.isStorage = true := by
  unfold conclude at h
  split at h
  · rename_i f' _ _
    cases h
    exact f'.property
  · rename_i f' _ _ _
    cases h
    exact f'.property
  · cases h

theorem conclude_nothing (p : Pass) : p.conclude .nothing = (p.finish, none) := by
  unfold conclude
  cases p.wrote <;> rfl

/-- Where nothing fails, a pass that gets through the offered units prunes and ends. -/
theorem run_nothing (canon : String → String) (src : Source) (plan : Plan) (s : Store) :
    Pass.run canon src .nothing plan s =
      match ingestAll canon src .nothing plan.offered.length { store := s } plan.offered with
      | (p, some f) => (p, some f)
      | (p, none) => ((plan.missing.foldl prune p).finish, none) := by
  unfold run
  rcases ingestAll canon src .nothing plan.offered.length { store := s } plan.offered with ⟨p, _ | f⟩
  · simp only [pruneAll_nothing, conclude_nothing]
  · rfl

/-- How far a run that meets no failure of the storage has gone. -/
theorem run_stages {plan : Plan} {s : Store} {q : Pass} (h : Pass.run canon src faults plan s = (q, none)) :
    ∃ p, ingestAll canon src faults plan.offered.length { store := s } plan.offered = (p, none) ∧
      p.pruneAll faults plan.missing = (plan.missing.foldl prune p, none) ∧
      (plan.missing.foldl prune p).conclude faults = (q, none) := by
  unfold run at h
  split at h
  · cases h
  · rename_i p hp
    split at h
    · cases h
    · rename_i p' hp'
      have hpruned : plan.missing.foldl prune p = p' := pruneAll_of_none hp'
      rw [← hpruned] at hp' h
      exact ⟨p, hp, hp', h⟩

/-- A run that meets no failure of the storage comes to the same as where there is none. -/
theorem run_of_none {plan : Plan} {s : Store} {q : Pass} (h : Pass.run canon src faults plan s = (q, none)) :
    Pass.run canon src .nothing plan s = (q, none) := by
  obtain ⟨p, hall, -, hend⟩ := run_stages h
  rw [run_nothing, ingestAll_of_none hall]
  exact congrArg (·, none) (conclude_of_none hend)

theorem run_isStorage {plan : Plan} {s : Store} {q : Pass} {f : Failure}
    (h : Pass.run canon src faults plan s = (q, some f)) : f.isStorage = true := by
  unfold run at h
  split at h
  · rename_i hall
    cases h
    exact ingestAll_isStorage hall
  · split at h
    · rename_i hpruned
      cases h
      exact pruneAll_isStorage hpruned
    · exact conclude_isStorage h

end Pass

/-! ## Updates -/

namespace Store

variable {storage : Storage} {config : Config} {force : Bool} {s : Store} {units : List UnitStamp}
  {baseline : Option Baseline}

/-- Where seeding does not fail with the storage it does what it does on any other one. -/
theorem seed_of_seedOn {seeded : Store × Bool × List String} (h : s.seedOn storage baseline = .ok seeded) :
    s.seed baseline = .ok seeded := by
  unfold seedOn at h
  split at h
  · cases h
  · exact h

theorem seed_of_seedOn_error {f : Failure} (h : s.seedOn storage baseline = .error f) (hf : f.isStorage = false) :
    s.seed baseline = .error f := by
  unfold seedOn at h
  split at h
  · rename_i f' _ _
    cases h
    cases hf.symm.trans f'.property
  · exact h

theorem seedOn_sound (s : Store) (baseline : Option Baseline) : s.seedOn .sound baseline = s.seed baseline := by
  unfold seedOn
  split
  · contradiction
  · rfl

/-- The pass of an update on a storage that does not fail. -/
theorem updateSeeded_eq (canon : String → String) (config : Config) (src : Source) (force : Bool) (s : Store)
    (units : List UnitStamp) : s.updateSeeded canon config src force units =
      match Pass.run canon src .nothing (Plan.make config force s units) s with
      | (p, some f) =>
        { outcome := .error f
          store := if config.stagingThreshold ≤ (Plan.make config force s units).staleCount then s else p.store
          reports := p.reports
          progress := p.progress }
      | (p, none) =>
        { outcome := .ok
            { offered := units.length, ingested := p.ingested,
              skipped := units.length - (Plan.make config force s units).staleCount, failed := p.failed,
              pruned := p.pruned,
              staged := config.stagingThreshold ≤ (Plan.make config force s units).staleCount }
          store := if config.stagingThreshold ≤ (Plan.make config force s units).staleCount && !p.wrote then s
            else p.store
          reports := p.reports
          progress := p.progress } := by
  unfold updateSeeded updateSeededOn
  rcases hrun : Pass.run canon src .nothing (Plan.make config force s units) s with ⟨p, _ | f⟩ <;>
    by_cases hstaged : config.stagingThreshold ≤ (Plan.make config force s units).staleCount <;>
      simp [hstaged, Storage.sound, Storage.faults, hrun]

/-- An update on a storage that does not fail. -/
theorem update_eq (canon : String → String) (config : Config) (src : Source) (force : Bool)
    (baseline : Option Baseline) (s : Store) : s.update canon config src force baseline =
      match s.seed baseline with
      | .error f => { outcome := .error f, store := s }
      | .ok (seeded, copied, seedReports) =>
        match src.units with
        | .error f => { outcome := .error f, store := seeded, reports := seedReports }
        | .ok units =>
          let result := seeded.updateSeeded canon config src force units
          { result with
            outcome := result.outcome.map fun summary => { summary with baselineCopied := copied }
            reports := seedReports ++ result.reports } := by
  unfold update updateOn
  rw [seedOn_sound]
  rfl

theorem update_of_seed_error {f : Failure} (h : s.seed baseline = .error f) :
    s.update canon config src force baseline = { outcome := .error f, store := s } := by
  rw [update_eq, h]

theorem update_of_units_error {seeded : Store} {copied : Bool} {seedReports : List String} {f : Failure}
    (hseed : s.seed baseline = .ok (seeded, copied, seedReports)) (hunits : src.units = .error f) :
    s.update canon config src force baseline =
      { outcome := .error f, store := seeded, reports := seedReports } := by
  rw [update_eq, hseed]
  simp only [hunits]

/-- A pass of an update in which no failure of the storage comes up. -/
theorem updateSeededOn_of_holds (h : StorageHolds (s.updateSeededOn storage canon config src force units).outcome) :
    s.updateSeededOn storage canon config src force units = s.updateSeeded canon config src force units := by
  rw [updateSeeded_eq]
  unfold updateSeededOn at h ⊢
  dsimp only at h ⊢
  split at h
  · rename_i f _
    cases (h f.val rfl).symm.trans f.property
  · split at h
    · rename_i hrun
      cases (h _ rfl).symm.trans (Pass.run_isStorage hrun)
    · rename_i hrun
      split at h
      · rename_i f _
        cases (h f.val rfl).symm.trans f.property
      · simp only [Pass.run_of_none hrun]

/-- An update in which no failure of the storage comes up does what it does on a storage that does not
fail. -/
theorem updateOn_of_holds (h : StorageHolds (s.updateOn storage canon config src force baseline).outcome) :
    s.updateOn storage canon config src force baseline = s.update canon config src force baseline := by
  rw [update_eq]
  unfold updateOn at h ⊢
  cases hon : s.seedOn storage baseline with
  | error f =>
    rw [hon] at h
    rw [seed_of_seedOn_error hon (h f rfl)]
  | ok seeded =>
    obtain ⟨seeded, copied, seedReports⟩ := seeded
    rw [seed_of_seedOn hon]
    cases hunits : src.units with
    | error f => rfl
    | ok units =>
      simp only [hon, hunits] at h
      simp only [updateSeededOn_of_holds (storageHolds_map.1 h)]

end Store

end CrossIndex
