/-
How an update keeps account of the units. Every offered unit is ingested, skipped or failed; a unit that is
ingested is stored as fresh as it was offered and counts as a local one, every other row stays as it was, and
what goes are the local units that are not offered, if missing units are pruned at all. Main statement: this
holds of every update from a faithful source, so a unit that a baseline has brought stays through any run of
such updates until one of them ingests it.
-/
import CrossIndex.Proofs.Update.Idempotent

namespace CrossIndex

/-- The offered units that an update ingests: they are stale and nothing is wrong with them. -/
def Source.taken (src : Source) (force : Bool) (s : Store) (units : List UnitStamp) : List UnitStamp :=
  units.filter fun u => (force || !u.isUpToDate (s.unit? u.indexFile)) && !src.fails u

/-- What an update has done to the units of a store `s` that became `t`. -/
structure Accounted (config : Config) (src : Source) (force : Bool) (units : List UnitStamp) (s t : Store)
    (m : Summary) : Prop where
  offered : m.offered = units.length
  ingested : m.ingested = (src.taken force s units).length
  total : m.offered = m.ingested + m.skipped + m.failed
  files : ∀ file, file ∈ t.units.map UnitRow.indexFile ↔
    file ∈ (src.taken force s units).map UnitStamp.indexFile ∨ ∃ row ∈ s.units, row.indexFile = file ∧
      (config.pruneMissingUnits = true → row.fromBaseline = true ∨ file ∈ units.map UnitStamp.indexFile)
  pruned : m.pruned = (s.units.filter fun row => (t.unit? row.indexFile).isNone).length
  written : ∀ u ∈ src.taken force s units, ∃ id, ⟨id, u.indexFile, u.stamp, u.checksum, false⟩ ∈ t.units
  kept : ∀ row ∈ t.units, row.indexFile ∉ (src.taken force s units).map UnitStamp.indexFile → row ∈ s.units

/-! ## Counting -/

theorem length_usable_add_refused (src : Source) (offered : List (UnitStamp × Bool)) :
    (src.usable offered).length + (src.refused offered).length = (offered.filter fun v => v.2).length := by
  induction offered with
  | nil => rfl
  | cons v offered ih =>
    obtain ⟨u, stale⟩ := v
    unfold Source.usable Source.refused Except.toOption at ih ⊢
    cases stale with
    | false => simpa using ih
    | true =>
      cases hf : src.fetch u with
      | ok r =>
        simp only [List.filterMap_cons, hf, if_true, List.length_cons, List.filter_cons]
        omega
      | error f =>
        simp only [List.filterMap_cons, hf, if_true, List.length_cons, List.filter_cons]
        omega

/-- Pruning counts every unit that goes. -/
theorem Pass.pruneAll_pruned : ∀ {files : List String} {p : Pass}, p.store.Sound → files.Nodup →
    (∀ file ∈ files, p.store.unit? file ≠ none) → (files.foldl prune p).pruned = p.pruned + files.length
  | [], _, _, _, _ => rfl
  | file :: files, p, hs, hn, hstored => by
    obtain ⟨hfile, hn⟩ := List.nodup_cons.1 hn
    obtain ⟨row, hrow⟩ := Option.ne_none_iff_exists'.1 (hstored file List.mem_cons_self)
    have hunit : ∀ other, (p.prune file).store.unit? other = if other ∈ [file] then none else p.store.unit? other :=
      @unit?_pruneAll [file] p hs
    have hstep : p.prune file = { p with store := p.store.deleteUnit row.id, pruned := p.pruned + 1 } := by
      simp [prune, hrow]
    have hsound : (p.prune file).store.Sound := by
      rw [hstep]
      exact Store.deleteUnit_sound hs _
    have hrest : ∀ other ∈ files, (p.prune file).store.unit? other ≠ none := by
      intro other hother
      have hne : other ≠ file := fun h => hfile (h ▸ hother)
      rw [hunit, if_neg (by simpa using hne)]
      exact hstored other (List.mem_cons_of_mem _ hother)
    rw [List.foldl_cons, pruneAll_pruned hsound hn hrest, hstep]
    show p.pruned + 1 + files.length = p.pruned + (files.length + 1)
    omega

section Plan

variable {config : Config} {force : Bool} {s : Store} {units : List UnitStamp}

/-- The files to prune are those of the local units that are not offered. -/
theorem missing_perm (config : Config) (force : Bool) (s : Store) (units : List UnitStamp) :
    (Plan.make config force s units).missing.Perm ((s.units.filter fun row => config.pruneMissingUnits &&
      (!row.fromBaseline && !units.any fun u => u.indexFile == row.indexFile)).map UnitRow.indexFile) := by
  cases hprune : config.pruneMissingUnits with
  | false => simp [Plan.make, hprune]
  | true =>
    simp only [Plan.make, hprune, if_true, Bool.true_and]
    have hsorted := (List.mergeSort_perm ((s.units.filter fun u => !u.fromBaseline).map UnitRow.indexFile)
      fun a b => (compare a b).isLE).filter fun file => !units.any fun u => u.indexFile == file
    refine hsorted.trans (.of_eq ?_)
    rw [List.filter_map, List.filter_filter]
    refine congrArg (List.map _) (List.filter_congr fun row _ => ?_)
    exact Bool.and_comm _ _

theorem missing_nodup (hs : s.Distinct) : (Plan.make config force s units).missing.Nodup :=
  (missing_perm config force s units).nodup_iff.2 (hs.indexFiles.sublist (List.filter_sublist.map _))

theorem mem_missing_iff (hs : s.Distinct) {row : UnitRow} (hrow : row ∈ s.units) :
    row.indexFile ∈ (Plan.make config force s units).missing ↔
      config.pruneMissingUnits = true ∧ row.fromBaseline = false ∧ row.indexFile ∉ units.map UnitStamp.indexFile := by
  have hoffered : row.indexFile ∉ units.map UnitStamp.indexFile ↔ ∀ u ∈ units, u.indexFile ≠ row.indexFile := by
    simp
  rw [hoffered]
  constructor
  · intro h
    obtain ⟨hprune, ⟨row', hrow', hlocal, hfile⟩, hnone⟩ := mem_missing_make h
    obtain rfl : row' = row := List.inj_on_of_nodup_map hs.indexFiles hrow' hrow hfile
    exact ⟨hprune, hlocal, hnone⟩
  · rintro ⟨hprune, hlocal, hnone⟩
    exact mem_missing_of hprune hrow hlocal hnone

end Plan

/-! ## The units after an update -/

section Update

variable {canon : String → String} {config : Config} {src : Source} {force : Bool} {s : Store}
  {units : List UnitStamp}

/-- What a faithful source hands over for writing are the units that are taken. -/
theorem map_usable (config : Config) (force : Bool) (s : Store) (hsrc : src.Faithful) (hunits : src.units = .ok units) :
    (src.usable (Plan.make config force s units).offered).map UnitRecord.unitStamp = src.taken force s units := by
  unfold Source.usable Source.taken Plan.make
  rw [List.map_filterMap, List.filterMap_map, ← List.filterMap_eq_filter]
  refine List.filterMap_congr fun u hu => ?_
  cases hf : src.fetch u with
  | error f => simp [Option.guard, Source.fails, hf, Except.toOption, Except.isOk, Except.toBool]
  | ok r =>
    have hstamp := hsrc.fetch hunits hu hf
    cases hstale : force || !u.isUpToDate (s.unit? u.indexFile) with
    | false => simp [Option.guard, hstale]
    | true => simp [Option.guard, Source.fails, hf, hstale, Except.toOption, Except.isOk, Except.toBool, hstamp]

theorem map_indexFile_usable (config : Config) (force : Bool) (s : Store) (hsrc : src.Faithful)
    (hunits : src.units = .ok units) :
    (src.usable (Plan.make config force s units).offered).map UnitRecord.indexFile =
      (src.taken force s units).map UnitStamp.indexFile := by
  rw [← map_usable config force s hsrc hunits, List.map_map]
  rfl

theorem settled_written (canon : String → String) (config : Config) (hs : s.Sound) (hsrc : src.Faithful)
    (hunits : src.units = .ok units) {u : UnitStamp} (hu : u ∈ src.taken force s units) :
    ∃ id, (settled canon config force src s units).store.unit? u.indexFile =
      some ⟨id, u.indexFile, u.stamp, u.checksum, false⟩ := by
  obtain ⟨-, -, hwritten⟩ := Store.unit?_replaceAll canon hs Source.usable_check
    (usable_distinct config force s hsrc hunits)
  have hoffered : u.indexFile ∉ (Plan.make config force s units).missing := fun h =>
    (mem_missing_make h).2.2 u (List.mem_of_mem_filter hu) rfl
  rw [← map_usable config force s hsrc hunits] at hu
  obtain ⟨r, hr, rfl⟩ := List.mem_map.1 hu
  obtain ⟨id, hid⟩ := hwritten r hr
  refine ⟨id, ?_⟩
  rw [unit?_settled hs hsrc hunits, if_neg hoffered]
  exact hid

theorem settled_other (hs : s.Sound) (hsrc : src.Faithful) (hunits : src.units = .ok units) {file : String}
    (hfile : file ∉ (src.taken force s units).map UnitStamp.indexFile) :
    (settled canon config force src s units).store.unit? file =
      if file ∈ (Plan.make config force s units).missing then none else s.unit? file := by
  obtain ⟨-, hother, -⟩ := Store.unit?_replaceAll canon hs Source.usable_check
    (usable_distinct config force s hsrc hunits)
  rw [unit?_settled hs hsrc hunits, hother file (by rwa [map_indexFile_usable config force s hsrc hunits])]

/-- Of the units that were stored those are gone that were to be pruned. -/
theorem settled_gone (hs : s.Sound) (hsrc : src.Faithful) (hunits : src.units = .ok units) {row : UnitRow}
    (hrow : row ∈ s.units) : (settled canon config force src s units).store.unit? row.indexFile = none ↔
      row.indexFile ∈ (Plan.make config force s units).missing := by
  by_cases htaken : row.indexFile ∈ (src.taken force s units).map UnitStamp.indexFile
  · obtain ⟨u, hu, hfile⟩ := List.mem_map.1 htaken
    obtain ⟨id, hid⟩ := settled_written canon config hs hsrc hunits hu
    rw [← hfile, hid]
    exact ⟨nofun, fun h => absurd rfl ((mem_missing_make h).2.2 u (List.mem_of_mem_filter hu))⟩
  · rw [settled_other hs hsrc hunits htaken, (Store.unit?_eq_some hs.toDistinct).2 ⟨hrow, rfl⟩]
    split
    · exact ⟨fun _ => by assumption, fun _ => rfl⟩
    · exact ⟨nofun, fun h => absurd h (by assumption)⟩

theorem settled_ingested (canon : String → String) (config : Config) (force : Bool) (s : Store) (hsrc : src.Faithful)
    (hunits : src.units = .ok units) :
    (settled canon config force src s units).ingested = (src.taken force s units).length := by
  rw [settled, (Pass.finish_frame _).1, (Pass.pruneAll_frame _ _).1, ← map_usable config force s hsrc hunits,
    List.length_map]
  exact Nat.zero_add _

theorem settled_pruned (hs : s.Sound) (hsrc : src.Faithful) (hunits : src.units = .ok units) :
    (settled canon config force src s units).pruned =
      (s.units.filter fun row =>
        ((settled canon config force src s units).store.unit? row.indexFile).isNone).length := by
  obtain ⟨hsound, hother, -⟩ := Store.unit?_replaceAll canon hs Source.usable_check
    (usable_distinct config force s hsrc hunits)
  -- a unit to be pruned is not offered, so its row is still there when the units have been written
  have hstored : ∀ file ∈ (Plan.make config force s units).missing,
      ((src.usable (Plan.make config force s units).offered).foldl (Store.replaceUnit canon) s).unit? file ≠ none := by
    intro file hfile
    obtain ⟨-, ⟨row, hrow, -, rfl⟩, hnone⟩ := mem_missing_make hfile
    rw [hother, (Store.unit?_eq_some hs.toDistinct).2 ⟨hrow, rfl⟩]
    · exact Option.some_ne_none _
    · rw [map_indexFile_usable config force s hsrc hunits]
      intro hmem
      obtain ⟨u, hu, hf⟩ := List.mem_map.1 hmem
      exact hnone u (List.mem_of_mem_filter hu) hf
  have hcount : (settled canon config force src s units).pruned = (Plan.make config force s units).missing.length := by
    rw [settled, (Pass.finish_frame _).2.2.1, Pass.pruneAll_pruned hsound (missing_nodup hs.toDistinct) hstored]
    exact Nat.zero_add _
  rw [hcount, (missing_perm config force s units).length_eq, List.length_map]
  refine congrArg List.length (List.filter_congr fun row hrow => ?_)
  rw [Bool.eq_iff_iff, Option.isNone_iff_eq_none, settled_gone hs hsrc hunits hrow, mem_missing_iff hs.toDistinct hrow]
  simp

/-- The index files that are stored after an update. -/
theorem settled_files (canon : String → String) (hs : s.Sound) (hsrc : src.Faithful) (hunits : src.units = .ok units)
    (file : String) :
    (∃ row, (settled canon config force src s units).store.unit? file = some row) ↔
      file ∈ (src.taken force s units).map UnitStamp.indexFile ∨ ∃ row ∈ s.units, row.indexFile = file ∧
        (config.pruneMissingUnits = true → row.fromBaseline = true ∨ file ∈ units.map UnitStamp.indexFile) := by
  by_cases htaken : file ∈ (src.taken force s units).map UnitStamp.indexFile
  · obtain ⟨u, hu, rfl⟩ := List.mem_map.1 htaken
    obtain ⟨id, hid⟩ := settled_written canon config hs hsrc hunits hu
    exact ⟨fun _ => .inl htaken, fun _ => ⟨_, hid⟩⟩
  · rw [settled_other hs hsrc hunits htaken]
    constructor
    · rintro ⟨row, hrow⟩
      split at hrow
      · cases hrow
      · rename_i hno
        obtain ⟨hmem, rfl⟩ := (Store.unit?_eq_some hs.toDistinct).1 hrow
        rw [mem_missing_iff hs.toDistinct hmem] at hno
        refine .inr ⟨row, hmem, rfl, fun hprune => ?_⟩
        by_contra hboth
        obtain ⟨hlocal, hnone⟩ := not_or.1 hboth
        exact hno ⟨hprune, by simpa using hlocal, hnone⟩
    · rintro (h | ⟨row, hrow, rfl, hspared⟩)
      · exact absurd h htaken
      · have hno : row.indexFile ∉ (Plan.make config force s units).missing := by
          rw [mem_missing_iff hs.toDistinct hrow]
          rintro ⟨hprune, hlocal, hnone⟩
          rcases hspared hprune with hbrought | hoffered
          · rw [hbrought] at hlocal
            cases hlocal
          · exact hnone hoffered
        exact ⟨row, by rw [if_neg hno, (Store.unit?_eq_some hs.toDistinct).2 ⟨hrow, rfl⟩]⟩

/-- Every offered unit is ingested, skipped or failed. -/
theorem settled_total (canon : String → String) (config : Config) (force : Bool) (s : Store) (hsrc : src.Faithful)
    (hunits : src.units = .ok units) :
    units.length = (settled canon config force src s units).ingested +
      (units.length - (Plan.make config force s units).staleCount) +
      (settled canon config force src s units).failed := by
  have hsum := length_usable_add_refused src (Plan.make config force s units).offered
  have hle := List.length_filter_le (fun v => v.2) (Plan.make config force s units).offered
  rw [offered_length] at hle
  have husable := congrArg List.length (map_usable config force s hsrc hunits)
  rw [List.length_map] at husable
  rw [settled_ingested canon config force s hsrc hunits, (settled_frame canon config force src s units).1]
  unfold Plan.staleCount
  omega

/-- The account of an update from a faithful source on a store that needs no seeding. -/
theorem update_accounted (hs : s.Sound) (hsrc : src.Faithful) (hunits : src.units = .ok units) {m : Summary}
    (hm : (s.update canon config src force none).outcome = .ok m) :
    Accounted config src force units s (s.update canon config src force none).store m := by
  rw [show s.update canon config src force none = _ from update_settled force hsrc hunits] at hm ⊢
  obtain rfl := Except.ok.inj hm
  have hd : (settled canon config force src s units).store.Distinct := (settled_sound hs hsrc hunits).toDistinct
  refine ⟨rfl, settled_ingested canon config force s hsrc hunits, settled_total canon config force s hsrc hunits,
    fun file => ?_, settled_pruned hs hsrc hunits, fun u hu => ?_, fun row hrow hfile => ?_⟩
  · rw [← settled_files canon hs hsrc hunits file]
    simp only [List.mem_map, Store.unit?_eq_some hd]
  · obtain ⟨id, hid⟩ := settled_written canon config hs hsrc hunits hu
    exact ⟨id, ((Store.unit?_eq_some hd).1 hid).1⟩
  · have hunit := (Store.unit?_eq_some hd).2 ⟨hrow, rfl⟩
    rw [settled_other hs hsrc hunits hfile] at hunit
    split at hunit
    · cases hunit
    · exact ((Store.unit?_eq_some hs.toDistinct).1 hunit).1

/-- An update goes on from the store that it is seeded with. -/
theorem update_of_seed {baseline : Option Baseline} {seeded : Store} {copied : Bool} {reports : List String}
    (h : s.seed baseline = .ok (seeded, copied, reports)) :
    s.update canon config src force baseline =
      { (seeded.update canon config src force none) with
        outcome := (seeded.update canon config src force none).outcome.map fun m => { m with baselineCopied := copied }
        reports := reports ++ (seeded.update canon config src force none).reports } := by
  have hself : seeded.seed none = .ok (seeded, false, []) := rfl
  rw [Store.update_eq, Store.update_eq]
  simp only [h, hself]
  cases src.units with
  | error f => simp [Except.map]
  | ok units =>
    simp only [List.nil_append, UpdateResult.mk.injEq, and_true]
    cases (seeded.updateSeeded canon config src force units).outcome <;> rfl

end Update

/-! ## Runs of updates -/

/-- An update with all that it is asked for. -/
structure Round where
  canon : String → String
  config : Config
  src : Source
  force : Bool
  baseline : Option Baseline

namespace Round

/-- What the update makes of a store. -/
def on (r : Round) (s : Store) : UpdateResult :=
  s.update r.canon r.config r.src r.force r.baseline

/-- The source is faithful, and the baseline was saved from a reachable store. -/
structure Proper (Canonical : (String → String) → Prop) (r : Round) : Prop where
  canonical : Canonical r.canon
  faithful : r.src.Faithful
  baseline : ∀ saved, r.baseline = some (.saved saved) → Store.Reachable Canonical saved

/-- Whether the update ingests a unit with an index file once the store is seeded. -/
def ingests (r : Round) (s : Store) (file : String) : Bool :=
  match s.seed r.baseline, r.src.units with
  | .ok (seeded, _, _), .ok units => ((r.src.taken r.force seeded units).map UnitStamp.indexFile).contains file
  | _, _ => false

end Round

namespace Store

/-- The store after a run of updates, some of which may fail. -/
def afterRounds (s : Store) (run : List Round) : Store :=
  run.foldl (fun s r => (r.on s).store) s

/-- Whether no update of a run ingests a unit with an index file. -/
def spares (file : String) : Store → List Round → Bool
  | _, [] => true
  | s, r :: run => !r.ingests s file && spares file (r.on s).store run

variable {Canonical : (String → String) → Prop} {s : Store} {r : Round}

theorem seed_of_mem {row : UnitRow} (hrow : row ∈ s.units) (baseline : Option Baseline) :
    s.seed baseline = .ok (s, false, []) := by
  have hunits : s.units.isEmpty = false := List.isEmpty_eq_false_iff_exists_mem.2 ⟨row, hrow⟩
  unfold seed isEmpty
  rw [hunits]
  cases baseline <;> rfl

theorem seeded_sound (hs : s.Reachable Canonical) (hr : r.Proper Canonical) {seeded : Store} {copied : Bool}
    {reports : List String} (hseed : s.seed r.baseline = .ok (seeded, copied, reports)) : seeded.Sound :=
  seed_steady (P := Store.Sound) (sound_steady r.canon).mark hs.sound (fun saved h => (hr.baseline saved h).sound) hseed

/-- One update: a unit that a baseline has brought, now or before, stays as it is unless it is ingested. -/
theorem on_keeps_brought (hs : s.Reachable Canonical) (hr : r.Proper Canonical) {seeded : Store} {copied : Bool}
    {reports : List String} (hseed : s.seed r.baseline = .ok (seeded, copied, reports)) {row : UnitRow}
    (hrow : row ∈ seeded.units) (hbrought : row.fromBaseline = true) (hspared : r.ingests s row.indexFile = false) :
    row ∈ (r.on s).store.units := by
  have hsound := seeded_sound hs hr hseed
  rw [Round.on, update_of_seed hseed]
  cases hunits : r.src.units with
  | error f =>
    rw [update_of_units_error rfl hunits]
    exact hrow
  | ok units =>
    have hon : (seeded.update r.canon r.config r.src r.force none).outcome = _ :=
      congrArg UpdateResult.outcome (update_settled r.force hr.faithful hunits)
    have haccount := update_accounted hsound hr.faithful hunits hon
    have hfile : row.indexFile ∉ (r.src.taken r.force seeded units).map UnitStamp.indexFile := by
      intro hmem
      rw [Round.ingests, hseed, hunits] at hspared
      simp only [List.contains_eq_mem, decide_eq_false_iff_not] at hspared
      exact hspared hmem
    obtain ⟨row', hrow', hsame⟩ := List.mem_map.1 ((haccount.files _).2 (.inr ⟨row, hrow, rfl, fun _ => .inl hbrought⟩))
    -- the row that is stored under the index file is not a new one
    have hold := haccount.kept row' hrow' (hsame ▸ hfile)
    obtain rfl : row' = row := List.inj_on_of_nodup_map hsound.indexFiles hold hrow hsame
    exact hrow'

theorem on_reachable (hs : s.Reachable Canonical) (hr : r.Proper Canonical) : (r.on s).store.Reachable Canonical :=
  .update hs hr.canonical hr.baseline

/-- A run of updates: what a baseline has brought stays until it is ingested. -/
theorem afterRounds_keeps_brought {row : UnitRow} (hbrought : row.fromBaseline = true) :
    ∀ {run : List Round} {s : Store}, s.Reachable Canonical → (∀ r ∈ run, r.Proper Canonical) → row ∈ s.units →
      spares row.indexFile s run = true → row ∈ (s.afterRounds run).units
  | [], _, _, _, hrow, _ => hrow
  | r :: run, s, hs, hrun, hrow, hspared => by
    obtain ⟨hspared, hrest⟩ := (Bool.and_eq_true _ _).mp hspared
    have hr := hrun r List.mem_cons_self
    have hstep := on_keeps_brought hs hr (seed_of_mem hrow r.baseline) hrow hbrought (by simpa using hspared)
    show row ∈ ((r.on s).store.afterRounds run).units
    exact afterRounds_keeps_brought hbrought (on_reachable hs hr)
      (fun r' hr' => hrun r' (List.mem_cons_of_mem _ hr')) hstep hrest

/-- Every successful update of a reachable store from a faithful source accounts for the units, and it
succeeds whenever the store can be seeded and the source knows its units. Over a run of updates a unit that
a baseline has brought, with the first of them or before, stays as it is as long as none ingests it. -/
theorem units_accounted (hs : s.Reachable Canonical) :
    (∀ r : Round, r.Proper Canonical →
      (∀ seeded copied reports units, s.seed r.baseline = .ok (seeded, copied, reports) → r.src.units = .ok units →
        ∃ m, (r.on s).outcome = .ok m) ∧
      ∀ m, (r.on s).outcome = .ok m → ∃ seeded copied reports units,
        s.seed r.baseline = .ok (seeded, copied, reports) ∧ r.src.units = .ok units ∧
          Accounted r.config r.src r.force units seeded (r.on s).store m) ∧
    ∀ (first : Round) (rest : List Round) (seeded : Store) (copied : Bool) (reports : List String) (row : UnitRow),
      (∀ r ∈ first :: rest, r.Proper Canonical) → s.seed first.baseline = .ok (seeded, copied, reports) →
      row ∈ seeded.units → row.fromBaseline = true → spares row.indexFile s (first :: rest) = true →
      row ∈ (s.afterRounds (first :: rest)).units := by
  refine ⟨fun r hr => ⟨fun seeded copied reports units hseed hunits => ?_, fun m hm => ?_⟩, ?_⟩
  · have hon : (seeded.update r.canon r.config r.src r.force none).outcome = _ :=
      congrArg UpdateResult.outcome (update_settled r.force hr.faithful hunits)
    rw [Round.on, update_of_seed hseed, hon]
    exact ⟨_, rfl⟩
  · cases hseed : s.seed r.baseline with
    | error f => simp [Round.on, update_of_seed_error hseed] at hm
    | ok result =>
      obtain ⟨seeded, copied, reports⟩ := result
      cases hunits : r.src.units with
      | error f => simp [Round.on, update_of_units_error hseed hunits] at hm
      | ok units =>
        rw [Round.on, update_of_seed hseed] at hm ⊢
        cases hinner : (seeded.update r.canon r.config r.src r.force none).outcome with
        | error f =>
          simp only [hinner] at hm
          cases hm
        | ok m' =>
          simp only [hinner] at hm
          obtain rfl := Except.ok.inj hm
          have haccount := update_accounted (seeded_sound hs hr hseed) hr.faithful hunits hinner
          exact ⟨seeded, copied, reports, units, rfl, rfl, haccount.offered, haccount.ingested, haccount.total,
            haccount.files, haccount.pruned, haccount.written, haccount.kept⟩
  · intro first rest seeded copied reports row hrun hseed hrow hbrought hspared
    obtain ⟨hspared, hrest⟩ := (Bool.and_eq_true _ _).mp hspared
    have hfirst := hrun first List.mem_cons_self
    have hstep := on_keeps_brought hs hfirst hseed hrow hbrought (by simpa using hspared)
    show row ∈ ((first.on s).store.afterRounds rest).units
    exact afterRounds_keeps_brought hbrought (on_reachable hs hfirst)
      (fun r hr => hrun r (List.mem_cons_of_mem _ hr)) hstep hrest

end Store

namespace Sample

/-- The store that is saved as a baseline: two units, one of which refers to an entity of the other. -/
def saved : Store :=
  (Store.fresh.update Path.normalize {} (MemorySource.ofUnits [recording 1 [declared], referring declared]).toSource
    false none).store

/-- A source that knows the first unit alone, in a newer version. -/
def newer : Source :=
  (MemorySource.ofUnits [recording 2 [declared]]).toSource

theorem newer_faithful : newer.Faithful :=
  (MemorySource.Built.foldl_insert _ .empty).faithful

/-- An update from that source, with the baseline. -/
def partialRound : Round :=
  ⟨Path.normalize, {}, newer, false, some (.saved saved)⟩

theorem partialRound_proper : partialRound.Proper (· = Path.normalize) where
  canonical := rfl
  faithful := newer_faithful
  baseline saved h := by
    obtain rfl := Baseline.saved.inj (Option.some.inj h)
    exact .update .fresh rfl fun _ h => by cases h

end Sample

open Sample Store in
/-- The second unit, which no local source knows, stays over two updates from the first one alone. -/
theorem partialRound_accounted :
    (partialRound.on fresh).outcome = .ok { offered := 1, ingested := 1, baselineCopied := true } ∧
      Accounted {} newer false [⟨"a.ali", 2, none⟩] saved.markBaseline (partialRound.on fresh).store
        { offered := 1, ingested := 1, baselineCopied := true } ∧
      ⟨2, "b.ali", 1, none, true⟩ ∈ (fresh.afterRounds [partialRound, partialRound]).units := by
  have hok : (partialRound.on fresh).outcome = .ok { offered := 1, ingested := 1, baselineCopied := true } := by
    decide +kernel
  have hseeded : fresh.seed partialRound.baseline = .ok (saved.markBaseline, true, []) := by decide +kernel
  have hoffered : partialRound.src.units = .ok [⟨"a.ali", 2, none⟩] := by decide +kernel
  have hfresh : fresh.Reachable (· = Path.normalize) := .fresh
  obtain ⟨haccounts, hstays⟩ := units_accounted hfresh
  obtain ⟨seeded, copied, reports, units, hseed, hunits, haccount⟩ := (haccounts _ partialRound_proper).2 _ hok
  obtain ⟨rfl, -, -⟩ : seeded = saved.markBaseline ∧ copied = true ∧ reports = [] := by
    simpa using hseed.symm.trans hseeded
  obtain rfl := Except.ok.inj (hunits.symm.trans hoffered)
  refine ⟨hok, haccount, hstays partialRound [partialRound] _ _ _ _ ?_ hseeded ?_ rfl ?_⟩
  · intro r hr
    obtain rfl : r = partialRound := by simpa using hr
    exact partialRound_proper
  · decide +kernel
  · decide +kernel

end CrossIndex
