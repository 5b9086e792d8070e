/-
What the generation tells of a store. A request leaves the store as it is, or counts the generation up, or
is an update in place that breaks off after it has written units. Main statement: two points of a run
with the same generation give every id the same meaning, unless an update has broken off in between.
-/
import CrossIndex.Proofs.Update.Staging

namespace CrossIndex

/-- What a handle of a database is asked to do. Every request stores paths in a way of its own. -/
inductive Request where
  | update (canon : String → String) (config : Config) (src : Source) (force : Bool)
  | insert (canon : String → String) (r : EntityRecord)

namespace Request

/-- The store that a request leaves behind, also if it fails. -/
def apply (s : Store) : Request → Store
  | update canon config src force => (s.update canon config src force none).store
  | insert canon r =>
    match s.insertEntity canon r with
    | .ok (_, t) => t
    | .error _ => s

/-- An update in place breaks off: the storage fails at a unit when other units have been written. -/
def BreaksOff (s : Store) : Request → Prop
  | update _ config src force => ∃ units before u rest f, src.units = .ok units ∧
      (Plan.make config force s units).offered = before ++ (u, true) :: rest ∧
      (Plan.make config force s units).staleCount < config.stagingThreshold ∧
      src.Serves before ∧ src.usable before ≠ [] ∧ src.fetch u = .error f ∧ f.isStorage = true
  | insert _ _ => False

end Request

namespace Store

variable {canon : String → String} {config : Config} {src : Source} {force : Bool} {s : Store}
  {units : List UnitStamp}

/-- The store after a run of requests. -/
def afterAll (s : Store) (run : List Request) : Store :=
  run.foldl Request.apply s

theorem afterAll_append (s : Store) (run run' : List Request) :
    s.afterAll (run ++ run') = (s.afterAll run).afterAll run' :=
  List.foldl_append

/-! ## One request -/

theorem foldl_prune_generation (files : List String) (p : Pass) :
    (files.foldl Pass.prune p).store.generation = p.store.generation := by
  induction files generalizing p with
  | nil => rfl
  | cons file files ih =>
    rw [List.foldl_cons, ih]
    unfold Pass.prune
    split <;> rfl

/-- The end of a pass counts the generation up if the pass has changed anything. -/
theorem finish_generation {p : Pass} (h : p.finish.wrote = true) :
    p.finish.store.generation = p.store.generation + 1 := by
  rw [Pass.finish_wrote] at h
  rw [Pass.finish, if_pos h]
  rfl

/-- A pass that ends well leaves the store as it was or counts its generation up. -/
theorem run_generation {plan : Plan} {p : Pass} (h : Pass.run canon src .nothing plan s = (p, none)) :
    p.store = s ∨ p.store.generation = s.generation + 1 := by
  cases hw : p.wrote with
  | false => exact .inl (Pass.run_store_of_idle h hw)
  | true =>
    right
    rcases Pass.run_cases canon src plan s with ⟨-, hrun⟩ | ⟨_, _, _, _, _, _, _, _, hrun⟩
    · obtain ⟨rfl, -⟩ := Prod.mk.inj (h.symm.trans hrun)
      rw [finish_generation hw, foldl_prune_generation]
      exact congrArg (· + 1) (foldl_replaceUnit_generation canon _ s)
    · cases (Prod.mk.inj (h.symm.trans hrun)).2

/-- What an update without baseline does to the generation. -/
theorem update_generation (canon : String → String) (config : Config) (src : Source) (force : Bool) (s : Store) :
    (s.update canon config src force none).store = s ∨
      (s.update canon config src force none).store.generation = s.generation + 1 ∨
      (Request.update canon config src force).BreaksOff s := by
  cases hunits : src.units with
  | error f =>
    left
    simp [update_eq, seed, hunits]
  | ok units =>
    rw [update_store_of_units hunits]
    rcases Pass.run_cases canon src (Plan.make config force s units) s with ⟨-, hrun⟩ |
      ⟨before, u, rest, f, hoff, hserves, hu, hf, hrun⟩
    · rw [updateSeeded_of_run hrun]
      exact (run_generation hrun).imp_right .inl
    · rw [updateSeeded_of_failure hrun]
      by_cases hstaged : config.stagingThreshold ≤ (Plan.make config force s units).staleCount
      · left
        exact if_pos hstaged
      · -- in place the store changes exactly if there was a unit to write before the failure
        by_cases hnone : src.usable before = []
        · left
          simp [hstaged, Pass.after, hnone]
        · exact .inr (.inr ⟨units, before, u, rest, f, hunits, hoff, Nat.not_le.1 hstaged, hserves, hnone, hu, hf⟩)

theorem insertEntity_generation {r : EntityRecord} {e : Entity} {t : Store}
    (h : s.insertEntity canon r = .ok (e, t)) : t.generation = s.generation + 1 := by
  have hsettle : ∀ (s : Store) (decl : Option Place) (row : Int → EntityRow),
      (s.settle r.name decl (fun e => e) row).2.generation = s.generation := by
    intro s decl row
    rw [settle_keep]
    split <;> rfl
  obtain ⟨-, ⟨-, rfl⟩ | ⟨l, -, p, -, rfl⟩⟩ := insertEntity_eq h
  · show (settle _ _ _ _ _).2.generation + 1 = _
    rw [hsettle]
  · show (settle _ _ _ _ _).2.generation + 1 = _
    rw [hsettle, internFile_eq]

/-- A request leaves the store as it is, or counts the generation up, or breaks off. -/
theorem apply_cases (r : Request) (s : Store) :
    r.apply s = s ∨ (r.apply s).generation = s.generation + 1 ∨ r.BreaksOff s := by
  cases r with
  | update canon config src force => exact update_generation canon config src force s
  | insert canon r =>
    cases h : s.insertEntity canon r with
    | error f => exact .inl (by simp [Request.apply, h])
    | ok done =>
      have hcount := insertEntity_generation h
      exact .inr (.inl (by simpa [Request.apply, h] using hcount))

/-- What an update leaves behind that breaks off: the units before the failure are written, and the
generation stays. -/
theorem update_of_breaksOff (h : (Request.update canon config src force).BreaksOff s) :
    ∃ f us, us ≠ [] ∧ f.isStorage = true ∧ (s.update canon config src force none).outcome = .error f ∧
      (s.update canon config src force none).store = us.foldl (replaceUnit canon) s ∧
      (s.update canon config src force none).store.generation = s.generation := by
  obtain ⟨units, before, u, rest, f, hunits, hoff, hplace, hserves, hsome, hu, hf⟩ := h
  have hi : (Plan.make config force s units).offered[before.length]? = some (u, true) := by simp [hoff]
  have htake : (Plan.make config force s units).offered.take before.length = before := by simp [hoff]
  have hseed : s.seed none = .ok (s, false, []) := rfl
  obtain ⟨houtcome, hstore⟩ : (s.update canon config src force none).outcome = .error f ∧ _ :=
    update_of_failure hseed hunits hi (by rw [htake]; exact hserves) hu hf
  rw [if_neg (Nat.not_le.2 hplace), htake] at hstore
  refine ⟨f, _, hsome, hf, houtcome, hstore, ?_⟩
  rw [hstore, foldl_replaceUnit_generation]

/-- Where every update with a stale unit is staged, none breaks off. -/
theorem not_breaksOff_of_staged (h : config.stagingThreshold ≤ 1) :
    ¬ (Request.update canon config src force).BreaksOff s := by
  rintro ⟨units, before, u, rest, f, -, hoff, hplace, -⟩
  have hstale : 0 < (Plan.make config force s units).staleCount := by
    rw [Plan.staleCount, List.length_filter_pos_iff]
    exact ⟨(u, true), hoff ▸ List.mem_append_right _ List.mem_cons_self, rfl⟩
  omega

theorem apply_generation (r : Request) (s : Store) : s.generation ≤ (r.apply s).generation := by
  rcases apply_cases r s with h | h | h
  · rw [h]
  · omega
  · cases r with
    | insert canon r => cases h
    | update canon config src force =>
      obtain ⟨-, -, -, -, -, -, hsame⟩ := update_of_breaksOff h
      exact hsame.ge

/-! ## A run -/

theorem afterAll_generation (s : Store) (run : List Request) : s.generation ≤ (s.afterAll run).generation := by
  induction run generalizing s with
  | nil => exact le_refl _
  | cons r run ih => exact (apply_generation r s).trans (ih (r.apply s))

/-- A run that leaves the generation and in which no update breaks off leaves the store. -/
theorem afterAll_eq_self {run : List Request} (hsame : (s.afterAll run).generation = s.generation)
    (hwhole : ∀ done r rest, run = done ++ r :: rest → ¬ r.BreaksOff (s.afterAll done)) : s.afterAll run = s := by
  induction run generalizing s with
  | nil => rfl
  | cons r run ih =>
    have hrest := afterAll_generation (r.apply s) run
    have hrun : s.afterAll (r :: run) = (r.apply s).afterAll run := rfl
    rcases apply_cases r s with h | h | h
    · rw [hrun, h] at hsame ⊢
      refine ih hsame fun done r' rest heq => ?_
      have hwhole' := hwhole (r :: done) r' rest (by rw [heq]; rfl)
      rwa [show s.afterAll (r :: done) = (r.apply s).afterAll done from rfl, h] at hwhole'
    · rw [hrun] at hsame
      omega
    · exact absurd h (hwhole [] r run rfl)

/-- The generation never falls, and it tells of every change of what ids mean but those of updates that
break off. Such an update fails with the storage, and leaves the units before written and the
generation as it was. -/
theorem generation_detects (s : Store) (before between : List Request) :
    (s.afterAll before).generation ≤ (s.afterAll (before ++ between)).generation ∧
    ((s.afterAll (before ++ between)).generation = (s.afterAll before).generation →
      (∀ done r rest, between = done ++ r :: rest → ¬ r.BreaksOff (s.afterAll (before ++ done))) →
      ∀ id k, (s.afterAll (before ++ between)).Names id k ↔ (s.afterAll before).Names id k) ∧
    ∀ canon config src force, (Request.update canon config src force).BreaksOff s →
      ∃ f us, us ≠ [] ∧ f.isStorage = true ∧ (s.update canon config src force none).outcome = .error f ∧
        (s.update canon config src force none).store = us.foldl (replaceUnit canon) s ∧
        (s.update canon config src force none).store.generation = s.generation := by
  simp only [afterAll_append]
  refine ⟨afterAll_generation _ between, fun hsame hwhole id k => ?_, fun canon config src force => update_of_breaksOff⟩
  rw [afterAll_eq_self hsame hwhole]

end Store

namespace Sample

/-- An update from two units in memory. -/
def calmUpdate : Request :=
  .update Path.normalize {} calm false

/-- A forced update that fails at its second unit, on a copy or in place. -/
def brokenUpdate (threshold : Nat) : Request :=
  .update Path.normalize (Config.staging {} threshold) interrupted true

end Sample

open Sample in
/-- After an update that goes well and one that fails on a copy, the first id names what it named before.
In place the failure comes after the first unit, which brings the id to a fresh store in its first generation. -/
theorem Store.broken_detects :
    ((Store.fresh.afterAll [calmUpdate, brokenUpdate 1]).Names 1 declared.key ↔
      (Store.fresh.afterAll [calmUpdate]).Names 1 declared.key) ∧
    (brokenUpdate 100).BreaksOff Store.fresh ∧ ((brokenUpdate 100).apply Store.fresh).generation = 0 ∧
    ((brokenUpdate 100).apply Store.fresh).Names 1 declared.key := by
  have hbroken : (brokenUpdate 100).BreaksOff Store.fresh :=
    ⟨[⟨"a.ali", 1, none⟩, ⟨"b.ali", 1, none⟩], [(⟨"a.ali", 1, none⟩, true)], ⟨"b.ali", 1, none⟩, [],
      Failure.of .io "read error", by decide +kernel, by decide +kernel, by decide +kernel, by decide +kernel,
      by decide +kernel, by decide +kernel, rfl⟩
  obtain ⟨-, hsame, hbreaks⟩ := generation_detects Store.fresh [calmUpdate] [brokenUpdate 1]
  obtain ⟨-, -, -, -, -, -, hgeneration⟩ := hbreaks _ _ _ _ hbroken
  refine ⟨hsame (by decide +kernel) ?_ 1 declared.key, hbroken, hgeneration, ?_⟩
  · intro done r rest heq hbreaks
    cases done with
    | cons _ done => simp at heq
    | nil =>
      obtain ⟨rfl, -⟩ := List.cons.inj heq
      exact not_breaksOff_of_staged (le_refl 1) hbreaks
  · unfold Store.Names
    decide +kernel

end CrossIndex
