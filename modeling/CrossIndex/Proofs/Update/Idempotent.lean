/-
Updating twice. A pass leaves every unit it has written exactly as fresh as it was offered, those it has
not written as they were, and none that it should have pruned. Main statement: an update that follows at
once on one that went well finds stale only what failed before, and changes nothing.
-/
import CrossIndex.Proofs.Source.Memory
import CrossIndex.Proofs.Store.Trace
import CrossIndex.Proofs.Update.Converge
import CrossIndex.Proofs.Update.Staging

namespace CrossIndex

/-- Whether a unit cannot be ingested. -/
def Source.fails (src : Source) (u : UnitStamp) : Bool :=
  !(src.fetch u).isOk

/-! ## The units after a pass -/

namespace Store

variable {canon : String → String} {s : Store}

theorem unit?_replaceUnit (hs : s.Sound) {u : UnitRecord} (hu : u.check = .ok ()) :
    ∃ id, ∀ file, (s.replaceUnit canon u).unit? file =
      if file = u.indexFile then some ⟨id, u.indexFile, u.stamp, u.checksum, false⟩ else s.unit? file := by
  obtain ⟨id, hunits⟩ := (replaceUnit_respelled hs hu).units
  have hd : (s.replaceUnit canon u).Distinct := (replaceUnit_sound hs hu).toDistinct
  refine ⟨id, fun file => ?_⟩
  apply Option.ext
  intro row
  rw [unit?_eq_some hd, hunits]
  split
  · rename_i hf
    subst hf
    constructor
    · rintro ⟨rfl | ⟨-, hne⟩, hf⟩
      · rfl
      · exact absurd hf hne
    · intro h
      cases h
      exact ⟨.inl rfl, rfl⟩
  · rename_i hf
    rw [unit?_eq_some hs.toDistinct]
    constructor
    · rintro ⟨rfl | ⟨hr, -⟩, hrf⟩
      · exact absurd hrf.symm hf
      · exact ⟨hr, hrf⟩
    · rintro ⟨hr, rfl⟩
      exact ⟨.inr ⟨hr, hf⟩, rfl⟩

/-- Each unit that is written is stored as fresh as it is, and the others stay. -/
theorem unit?_replaceAll (canon : String → String) : ∀ {us : List UnitRecord} {s : Store}, s.Sound →
    (∀ u ∈ us, u.check = .ok ()) → (us.map UnitRecord.indexFile).Nodup →
    (us.foldl (replaceUnit canon) s).Sound ∧
      (∀ file ∉ us.map UnitRecord.indexFile, (us.foldl (replaceUnit canon) s).unit? file = s.unit? file) ∧
      ∀ u ∈ us, ∃ id, (us.foldl (replaceUnit canon) s).unit? u.indexFile =
        some ⟨id, u.indexFile, u.stamp, u.checksum, false⟩
  | [], s, hs, _, _ => ⟨hs, fun _ _ => rfl, fun _ h => by cases h⟩
  | u :: us, s, hs, hcheck, hn => by
    obtain ⟨hu, hn⟩ := List.nodup_cons.1 hn
    obtain ⟨id, hunit⟩ : ∃ id, ∀ file, (s.replaceUnit canon u).unit? file = _ :=
      unit?_replaceUnit hs (hcheck u List.mem_cons_self)
    obtain ⟨hsound, hother, hwritten⟩ := unit?_replaceAll canon (replaceUnit_sound hs (hcheck u List.mem_cons_self))
      (fun v hv => hcheck v (List.mem_cons_of_mem _ hv)) hn
    rw [List.foldl_cons]
    -- the other units have other index files, so they leave the row of the first one alone
    refine ⟨hsound, fun file hf => ?_, fun v hv => ?_⟩
    · obtain ⟨hne, hf⟩ := not_or.1 (mt List.mem_cons.2 hf)
      rw [hother file hf, hunit, if_neg hne]
    · rcases List.mem_cons.1 hv with rfl | hv
      · exact ⟨id, by rw [hother _ hu, hunit, if_pos rfl]⟩
      · exact hwritten v hv

end Store

namespace Pass

variable {canon : String → String} {src : Source}

/-- What is pruned is gone, and the other units stay. -/
theorem unit?_pruneAll : ∀ {files : List String} {p : Pass}, p.store.Sound →
    ∀ file, (files.foldl prune p).store.unit? file = if file ∈ files then none else p.store.unit? file
  | [], _, _, _ => rfl
  | first :: files, p, hs, file => by
    cases hu : p.store.unit? first with
    | none =>
      have hstep : p.prune first = p := by simp [prune, hu]
      rw [List.foldl_cons, hstep, unit?_pruneAll hs file]
      by_cases hf : file = first
      · subst hf
        simp [hu]
      · simp [hf]
    | some row =>
      have hstep : (p.prune first).store = p.store.deleteUnit row.id := by simp [prune, hu]
      obtain ⟨hrow, hrf⟩ := (Store.unit?_eq_some hs.toDistinct).1 hu
      have hsound : (p.prune first).store.Sound := by
        rw [hstep]
        exact Store.deleteUnit_sound hs _
      have hunit : (p.prune first).store.unit? file = if file = first then none else p.store.unit? file := by
        apply Option.ext
        intro r
        rw [Store.unit?_eq_some hsound.toDistinct, hstep, Store.mem_deleteUnit hs hrow, hrf]
        by_cases hf : file = first
        · subst hf
          simp
        · rw [if_neg hf, Store.unit?_eq_some hs.toDistinct]
          constructor
          · rintro ⟨⟨hr, -⟩, h⟩
            exact ⟨hr, h⟩
          · rintro ⟨hr, rfl⟩
            exact ⟨⟨hr, hf⟩, rfl⟩
      rw [List.foldl_cons, unit?_pruneAll hsound file, hunit]
      by_cases hf : file = first
      · simp [hf]
      · simp [hf]

theorem finish_unit? (p : Pass) (file : String) : p.finish.store.unit? file = p.store.unit? file := by
  unfold finish
  split <;> rfl

end Pass

/-! ## The plan after a pass -/

section Second

variable {canon : String → String} {config : Config} {src : Source} {s : Store} {units : List UnitStamp}

/-- A faithful source does not fail with the storage. -/
theorem Source.Faithful.serves (h : src.Faithful) (hunits : src.units = .ok units) (force : Bool) :
    src.Serves (Plan.make config force s units).offered := by
  intro v hv _ f hf
  obtain ⟨u, hu, rfl⟩ := List.mem_map.1 hv
  unfold Source.fetch at hf
  rcases (h units hunits).2 u hu with ⟨e, he, hst⟩ | ⟨r, hr, -⟩
  · rw [he] at hf
    cases hf
    exact hst
  · rw [hr] at hf
    cases hc : r.check with
    | ok _ => simp [hc] at hf
    | error d =>
      simp only [hc, Except.error.injEq] at hf
      rw [← hf]
      rfl

/-- What a faithful source hands over is as fresh as it was offered. -/
theorem Source.Faithful.fetch (h : src.Faithful) (hunits : src.units = .ok units) {u : UnitStamp} (hu : u ∈ units)
    {r : UnitRecord} (hr : src.fetch u = .ok r) : r.unitStamp = u := by
  have hload := (fetch_eq_ok hr).1
  rcases (h units hunits).2 u hu with ⟨e, he, -⟩ | ⟨r', hr', hstamp⟩
  · rw [he] at hload
    cases hload
  · rw [hr'] at hload
    cases hload
    exact hstamp

theorem isUpToDate_self (u : UnitStamp) (id : Int) :
    u.isUpToDate (some ⟨id, u.indexFile, u.stamp, u.checksum, false⟩) = true := by
  unfold UnitStamp.isUpToDate
  cases u.checksum with
  | none => simp
  | some sum => simp

/-- The index files of what is usable are among those offered, each once. -/
theorem usable_indexFiles (h : src.Faithful) (hunits : src.units = .ok units) {offered : List (UnitStamp × Bool)}
    (hoff : offered.map (·.1) = units) :
    ((src.usable offered).map UnitRecord.indexFile).Sublist (units.map UnitStamp.indexFile) := by
  have hmem : ∀ v ∈ offered, v.1 ∈ units := by
    intro v hv
    rw [← hoff]
    exact List.mem_map.2 ⟨v, hv, rfl⟩
  rw [← hoff, List.map_map]
  clear hoff
  induction offered with
  | nil => exact .refl _
  | cons v offered ih =>
    have htail := ih fun v' hv' => hmem v' (List.mem_cons_of_mem _ hv')
    obtain ⟨u, stale⟩ := v
    cases stale with
    | false => exact htail.cons _
    | true =>
      cases hf : src.fetch u with
      | error f =>
        simp only [Source.usable, List.filterMap_cons, hf, Except.toOption, if_true, List.map_cons] at htail ⊢
        exact htail.cons _
      | ok r =>
        have hstamp := h.fetch hunits (hmem (u, true) List.mem_cons_self) hf
        simp only [Source.usable, List.filterMap_cons, hf, Except.toOption, if_true, List.map_cons] at htail ⊢
        have hfile : r.indexFile = u.indexFile := congrArg UnitStamp.indexFile hstamp
        rw [hfile]
        exact htail.cons_cons _

/-- The end of the pass of an update when the source serves all units. -/
def settled (canon : String → String) (config : Config) (force : Bool) (src : Source) (s : Store)
    (units : List UnitStamp) : Pass :=
  ((Plan.make config force s units).missing.foldl Pass.prune
    (Pass.after canon src units.length { store := s } (Plan.make config force s units).offered)).finish

theorem map_offered (config : Config) (force : Bool) (s : Store) (units : List UnitStamp) :
    (Plan.make config force s units).offered.map (·.1) = units := by
  simp [Plan.make, Function.comp_def]

theorem offered_length (config : Config) (force : Bool) (s : Store) (units : List UnitStamp) :
    (Plan.make config force s units).offered.length = units.length := by
  simp [Plan.make]

theorem usable_distinct (config : Config) (force : Bool) (s : Store) (hsrc : src.Faithful)
    (hunits : src.units = .ok units) :
    ((src.usable (Plan.make config force s units).offered).map UnitRecord.indexFile).Nodup :=
  (hsrc units hunits).1.sublist (usable_indexFiles hsrc hunits (map_offered config force s units))

/-- After the update no unit is left that was to be pruned, and the others are as written or as before. -/
theorem unit?_settled {force : Bool} (hs : s.Sound) (hsrc : src.Faithful) (hunits : src.units = .ok units)
    (file : String) :
    (settled canon config force src s units).store.unit? file =
      if file ∈ (Plan.make config force s units).missing then none
      else ((src.usable (Plan.make config force s units).offered).foldl (Store.replaceUnit canon) s).unit? file := by
  have hsound := (Store.unit?_replaceAll canon hs Source.usable_check (usable_distinct config force s hsrc hunits)).1
  rw [settled, Pass.finish_unit?, Pass.unit?_pruneAll hsound]
  rfl

theorem mem_missing_make {force : Bool} {file : String} (h : file ∈ (Plan.make config force s units).missing) :
    config.pruneMissingUnits = true ∧ (∃ row ∈ s.units, row.fromBaseline = false ∧ row.indexFile = file) ∧
      ∀ u ∈ units, u.indexFile ≠ file := by
  unfold Plan.make at h
  simp only at h
  split at h
  · rename_i hprune
    obtain ⟨hlocal, hnone⟩ := List.mem_filter.1 h
    unfold Plan.localUnits at hlocal
    rw [List.mem_mergeSort, List.mem_map] at hlocal
    obtain ⟨row, hrow, hf⟩ := hlocal
    obtain ⟨hrow, hlocal⟩ := List.mem_filter.1 hrow
    exact ⟨hprune, ⟨row, hrow, by simpa using hlocal, hf⟩, by simpa using hnone⟩
  · cases h

theorem mem_missing_of {force : Bool} {row : UnitRow} (hprune : config.pruneMissingUnits = true) (hrow : row ∈ s.units)
    (hlocal : row.fromBaseline = false) (hnone : ∀ u ∈ units, u.indexFile ≠ row.indexFile) :
    row.indexFile ∈ (Plan.make config force s units).missing := by
  unfold Plan.make Plan.localUnits
  simp only [hprune, if_true, List.mem_filter, List.mem_mergeSort, List.mem_map]
  exact ⟨⟨row, ⟨hrow, by simpa using hlocal⟩, rfl⟩, by simpa using hnone⟩

/-- A unit that is not usable is not written over by another one. -/
theorem notMem_usable (hsrc : src.Faithful) (hunits : src.units = .ok units) {u : UnitStamp} (hu : u ∈ units)
    (h : u.isUpToDate (s.unit? u.indexFile) = true ∨ src.fails u = true) :
    u.indexFile ∉ (src.usable (Plan.make config false s units).offered).map UnitRecord.indexFile := by
  intro hmem
  obtain ⟨r, hr, hf⟩ := List.mem_map.1 hmem
  obtain ⟨u', hu', hfetch⟩ := Source.mem_usable.1 hr
  obtain ⟨v, hv, heq⟩ := List.mem_map.1 hu'
  obtain ⟨rfl, hstale⟩ := Prod.mk.inj heq
  have hstamp := hsrc.fetch hunits hv hfetch
  have hfile : v.indexFile = u.indexFile := by
    rw [← hf, ← hstamp]
    rfl
  obtain rfl : v = u := List.inj_on_of_nodup_map (hsrc units hunits).1 hv hu hfile
  rcases h with h | h
  · simp [h] at hstale
  · simp [Source.fails, hfetch, Except.isOk, Except.toBool] at h

/-- After the update a unit is up to date if it was before or could be ingested. -/
theorem isUpToDate_settled (hs : s.Sound) (hsrc : src.Faithful) (hunits : src.units = .ok units) {u : UnitStamp}
    (hu : u ∈ units) : u.isUpToDate ((settled canon config false src s units).store.unit? u.indexFile) =
      (u.isUpToDate (s.unit? u.indexFile) || !src.fails u) := by
  obtain ⟨-, hother, hwritten⟩ := Store.unit?_replaceAll canon hs Source.usable_check
    (usable_distinct config false s hsrc hunits)
  have hoffered : u.indexFile ∉ (Plan.make config false s units).missing := fun h =>
    (mem_missing_make h).2.2 u hu rfl
  rw [unit?_settled hs hsrc hunits, if_neg hoffered]
  -- a unit is left as it was if it is fresh or fails, and is as fresh as offered once it is written
  cases hfresh : u.isUpToDate (s.unit? u.indexFile) with
  | true => rw [hother _ (notMem_usable hsrc hunits hu (.inl hfresh)), hfresh, Bool.true_or]
  | false =>
    cases hfetch : src.fetch u with
    | error f =>
      have hfails : src.fails u = true := by simp [Source.fails, hfetch, Except.isOk, Except.toBool]
      rw [hother _ (notMem_usable hsrc hunits hu (.inr hfails)), hfresh, hfails]
      rfl
    | ok r =>
      have hfails : src.fails u = false := by simp [Source.fails, hfetch, Except.isOk, Except.toBool]
      have hstale : (u, true) ∈ (Plan.make config false s units).offered :=
        List.mem_map.2 ⟨u, hu, by simp [hfresh]⟩
      obtain ⟨id, hid⟩ := hwritten r (Source.mem_usable.2 ⟨u, hstale, hfetch⟩)
      obtain rfl := hsrc.fetch hunits hu hfetch
      rw [hfails, show r.unitStamp.indexFile = r.indexFile from rfl, hid]
      exact isUpToDate_self r.unitStamp id

theorem sound_steady (canon : String → String) : Steady canon Store.Sound where
  write hs h := Store.writeUnit_sound hs h
  prune hs unit := Store.deleteUnit_sound hs unit
  purge hs := Store.purgeOrphans_sound hs
  bump hs := Store.bump_sound hs
  mark hs := Store.markBaseline_sound hs

theorem settled_sound {force : Bool} (hs : s.Sound) (hsrc : src.Faithful)
    (hunits : src.units = .ok units) :
    (settled canon config force src s units).store.Sound := by
  have hsound := (Store.unit?_replaceAll canon hs Source.usable_check (usable_distinct config force s hsrc hunits)).1
  have hpruned := Pass.foldl_prune_steady (sound_steady canon).prune (Plan.make config force s units).missing
    (p := Pass.after canon src units.length { store := s } (Plan.make config force s units).offered) hsound
  unfold settled Pass.finish
  split
  · exact Store.bump_sound (Store.purgeOrphans_sound hpruned)
  · exact hpruned

/-- After the update nothing is missing. -/
theorem missing_settled (hs : s.Sound) (hsrc : src.Faithful)
    (hunits : src.units = .ok units) :
    (Plan.make config false (settled canon config false src s units).store units).missing = [] := by
  obtain ⟨-, hother, -⟩ :=
    Store.unit?_replaceAll canon hs Source.usable_check (usable_distinct config false s hsrc hunits)
  rw [List.eq_nil_iff_forall_not_mem]
  intro file hfile
  obtain ⟨hprune, ⟨row, hrow, hlocal, rfl⟩, hnone⟩ := mem_missing_make hfile
  have hstored : (settled canon config false src s units).store.unit? row.indexFile = some row :=
    (Store.unit?_eq_some (settled_sound hs hsrc hunits).toDistinct).2 ⟨hrow, rfl⟩
  have hunwritten : row.indexFile ∉ (src.usable (Plan.make config false s units).offered).map UnitRecord.indexFile := by
    intro hmem
    have hin := (usable_indexFiles hsrc hunits (map_offered config false s units)).subset hmem
    obtain ⟨u, hu, hf⟩ := List.mem_map.1 hin
    exact hnone u hu hf
  -- the row was there before, so it was missing then and has been pruned
  rw [unit?_settled hs hsrc hunits, hother _ hunwritten] at hstored
  split at hstored
  · cases hstored
  · rename_i hno
    exact hno (mem_missing_of hprune ((Store.unit?_eq_some hs.toDistinct).1 hstored).1 hlocal hnone)

/-- Of a plan only the failing units are left to do. -/
theorem offered_settled (canon : String → String) (config : Config) (hs : s.Sound) (hsrc : src.Faithful)
    (hunits : src.units = .ok units) :
    (Plan.make config false (settled canon config false src s units).store units).offered =
      (Plan.make config false s units).offered.map fun v => (v.1, v.2 && src.fails v.1) := by
  unfold Plan.make
  simp only [List.map_map, Bool.false_or]
  apply List.map_congr_left
  intro u hu
  simp only [Function.comp, Prod.mk.injEq, true_and]
  rw [isUpToDate_settled hs hsrc hunits hu]
  simp

end Second

/-- Nothing is usable of what fails. -/
theorem usable_fails (src : Source) (offered : List (UnitStamp × Bool)) :
    src.usable (offered.map fun v => (v.1, v.2 && src.fails v.1)) = [] := by
  unfold Source.usable
  rw [List.filterMap_map, List.filterMap_eq_nil_iff]
  rintro ⟨u, stale⟩ -
  cases hf : src.fetch u with
  | error f => cases stale <;> simp [hf, Except.toOption]
  | ok r => simp [Source.fails, hf, Except.isOk, Except.toBool]

/-- What fails is all that fails. -/
theorem refused_fails (src : Source) (offered : List (UnitStamp × Bool)) :
    src.refused (offered.map fun v => (v.1, v.2 && src.fails v.1)) = src.refused offered := by
  unfold Source.refused
  rw [List.filterMap_map]
  apply List.filterMap_congr
  rintro ⟨u, stale⟩ -
  cases hf : src.fetch u with
  | error f => simp [Source.fails, hf, Except.isOk, Except.toBool]
  | ok r => cases stale <;> simp [hf]

/-! ## The second update -/

section Twice

variable {canon : String → String} {config : Config} {src : Source} {s : Store} {units : List UnitStamp}

theorem settled_frame (canon : String → String) (config : Config) (force : Bool) (src : Source) (s : Store)
    (units : List UnitStamp) :
    (settled canon config force src s units).failed = (src.refused (Plan.make config force s units).offered).length ∧
      (settled canon config force src s units).reports =
        (src.refused (Plan.make config force s units).offered).map Failure.display := by
  obtain ⟨-, hfailed, hreports, -⟩ := Pass.pruneAll_frame (Plan.make config force s units).missing
    (Pass.after canon src units.length { store := s } (Plan.make config force s units).offered)
  obtain ⟨-, hfailed', -, hreports'⟩ := Pass.finish_frame ((Plan.make config force s units).missing.foldl Pass.prune
    (Pass.after canon src units.length { store := s } (Plan.make config force s units).offered))
  unfold settled
  rw [hfailed', hreports', hfailed, hreports]
  exact ⟨Nat.zero_add _, List.nil_append _⟩

/-- An update of a faithful source without baseline. -/
theorem update_settled (force : Bool) (hsrc : src.Faithful) (hunits : src.units = .ok units) :
    s.update canon config src force none =
      { outcome := .ok
          { offered := units.length
            ingested := (settled canon config force src s units).ingested
            skipped := units.length - (Plan.make config force s units).staleCount
            failed := (settled canon config force src s units).failed
            pruned := (settled canon config force src s units).pruned
            staged := config.stagingThreshold ≤ (Plan.make config force s units).staleCount }
        store := (settled canon config force src s units).store
        reports := (settled canon config force src s units).reports
        progress := (settled canon config force src s units).progress } := by
  have hrun : Pass.run canon src .nothing (Plan.make config force s units) s =
      (settled canon config force src s units, none) := by
    unfold settled
    rw [Pass.run_of_serves (hsrc.serves hunits force), offered_length]
  rw [Store.update_eq]
  simp only [Store.seed, hunits]
  rw [Store.updateSeeded_of_run hrun]
  rfl

/-- After an update the next one leaves all as it is. -/
theorem settled_settled (canon canon' : String → String) (config : Config) (hs : s.Sound) (hsrc : src.Faithful)
    (hunits : src.units = .ok units) :
    (settled canon' config false src (settled canon config false src s units).store units).ingested = 0 ∧
      (settled canon' config false src (settled canon config false src s units).store units).pruned = 0 ∧
      (settled canon' config false src (settled canon config false src s units).store units).store =
        (settled canon config false src s units).store := by
  let t := (settled canon config false src s units).store
  have hafter : Pass.after canon' src units.length { store := t } (Plan.make config false t units).offered =
      { (Pass.after canon' src units.length { store := t } (Plan.make config false t units).offered) with
        store := t, ingested := 0, pruned := 0 } := by
    unfold Pass.after
    rw [show (Plan.make config false t units).offered = _ from offered_settled canon config hs hsrc hunits,
      usable_fails]
    rfl
  have hwrote : (Pass.after canon' src units.length { store := t } (Plan.make config false t units).offered).wrote =
      false := by
    rw [hafter]
    rfl
  have heq : settled canon' config false src t units =
      Pass.after canon' src units.length { store := t } (Plan.make config false t units).offered := by
    unfold settled
    rw [show (Plan.make config false t units).missing = [] from missing_settled hs hsrc hunits, List.foldl_nil,
      Pass.finish, if_neg (by simp [hwrote])]
  show (settled canon' config false src t units).ingested = 0 ∧ (settled canon' config false src t units).pruned = 0 ∧
    (settled canon' config false src t units).store = t
  rw [heq, hafter]
  exact ⟨rfl, rfl, rfl⟩

end Twice

/-- An update that repeats one that went well: it writes and prunes nothing, the units that are stale now
are those that were stale and failed before, and they fail again with the same reports; the store stays. -/
structure Repeats (config : Config) (src : Source) (units : List UnitStamp) (s : Store) (m : Summary)
    (first second : UpdateResult) : Prop where
  outcome : ∃ m', second.outcome = .ok m' ∧ m'.offered = m.offered ∧ m'.ingested = 0 ∧ m'.pruned = 0 ∧
    m'.failed = m.failed
  stale : (Plan.make config false first.store units).offered =
    (Plan.make config false s units).offered.map fun v => (v.1, v.2 && src.fails v.1)
  reports : second.reports = first.reports
  store : second.store = first.store

/-- Sources in memory are faithful, and an update from a faithful source repeats the one before it. -/
theorem update_idempotent :
    (∀ m : MemorySource, m.Built → m.toSource.Faithful) ∧
    ∀ (Canonical : (String → String) → Prop) (s : Store) (src : Source) (canon canon' : String → String)
      (config : Config) (m : Summary), s.Reachable Canonical → src.Faithful →
      (s.update canon config src false none).outcome = .ok m →
      ∃ units, src.units = .ok units ∧ Repeats config src units s m (s.update canon config src false none)
        ((s.update canon config src false none).store.update canon' config src false none) := by
  refine ⟨fun m hm => hm.faithful, ?_⟩
  intro Canonical s src canon canon' config m hreachable hsrc hok
  have hs := hreachable.sound
  obtain ⟨units, hunits⟩ : ∃ units, src.units = .ok units := by
    cases hu : src.units with
    | ok units => exact ⟨units, rfl⟩
    | error f =>
      rw [Store.update_of_units_error rfl hu] at hok
      cases hok
  refine ⟨units, hunits, ?_⟩
  have hfirst : s.update canon config src false none = _ := update_settled false hsrc hunits
  rw [hfirst] at hok ⊢
  rw [show (settled canon config false src s units).store.update canon' config src false none = _ from
    update_settled false hsrc hunits]
  obtain ⟨hingested, hpruned, hstore⟩ := settled_settled canon canon' config hs hsrc hunits
  injection hok with hm
  have hstale := offered_settled canon config hs hsrc hunits
  have hframe := settled_frame canon config false src s units
  have hframe' := settled_frame canon' config false src (settled canon config false src s units).store units
  rw [hstale, refused_fails] at hframe'
  refine ⟨⟨_, rfl, by rw [← hm], hingested, hpruned, ?_⟩, hstale, ?_, hstore⟩
  · rw [← hm]
    exact hframe'.1.trans hframe.1.symm
  · exact hframe'.2.trans hframe.2.symm

open Sample in
/-- One unit is ingested and another one cannot be read; the next update reports it again. -/
theorem halfReadable_idempotent :
    Repeats {} (MemorySource.insertUnreadable (.ofUnits [recording 1 [declared]]) "b.ali" "no header").toSource
      [⟨"a.ali", 1, none⟩, ⟨"b.ali", unreadableStamp, none⟩] Store.fresh
      { offered := 2, ingested := 1, failed := 1 }
      (Store.fresh.update Path.normalize {}
        (MemorySource.insertUnreadable (.ofUnits [recording 1 [declared]]) "b.ali" "no header").toSource false none)
      ((Store.fresh.update Path.normalize {}
        (MemorySource.insertUnreadable (.ofUnits [recording 1 [declared]]) "b.ali" "no header").toSource false
        none).store.update id {}
        (MemorySource.insertUnreadable (.ofUnits [recording 1 [declared]]) "b.ali" "no header").toSource false
        none) := by
  have hbuilt : (MemorySource.insertUnreadable (.ofUnits [recording 1 [declared]]) "b.ali" "no header").Built :=
    .insertUnreadable _ _ (.foldl_insert _ .empty)
  obtain ⟨units, hunits, h⟩ := update_idempotent.2 (· = Path.normalize) Store.fresh _ Path.normalize id {}
    { offered := 2, ingested := 1, failed := 1 } .fresh (update_idempotent.1 _ hbuilt) (by decide +kernel)
  have hoffered :
      (MemorySource.insertUnreadable (.ofUnits [recording 1 [declared]]) "b.ali" "no header").toSource.units =
        .ok [⟨"a.ali", 1, none⟩, ⟨"b.ali", unreadableStamp, none⟩] := by decide +kernel
  obtain rfl := Except.ok.inj (hunits.symm.trans hoffered)
  exact h

end CrossIndex
