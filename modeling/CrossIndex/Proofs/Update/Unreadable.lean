/-
What becomes of units that cannot be read. A source in memory offers them with the largest stamp and without a
checksum, so they are told from what is stored by their stamps alone. Main statement: an update tries each of them,
reports it once and keeps its row, unless a unit was stored under its index file with a stamp as large as that; then it
is passed over as if it were up to date. Where all units that can be read have smaller stamps, this never happens.
-/
import CrossIndex.Proofs.Update.Bookkeeping

namespace CrossIndex

/-- The offered units that an update passes over. -/
def Source.passed (force : Bool) (s : Store) (units : List UnitStamp) : List UnitStamp :=
  units.filter fun u => !(force || !u.isUpToDate (s.unit? u.indexFile))

/-- The offered units that an update tries and cannot ingest, each with the reason. -/
def Source.refusals (src : Source) (force : Bool) (s : Store) (units : List UnitStamp) : List (UnitStamp × Failure) :=
  units.filterMap fun u =>
    if force || !u.isUpToDate (s.unit? u.indexFile) then match src.fetch u with
      | .ok _ => none
      | .error f => some (u, f)
    else none

/-- A unit is tried and cannot be ingested for a reason, and it is the only one of its index file. -/
structure Attempted (src : Source) (force : Bool) (s : Store) (units : List UnitStamp) (u : UnitStamp) (f : Failure) :
    Prop where
  once : (src.refusals force s units).filter (fun x => x.1.indexFile == u.indexFile) = [(u, f)]
  notPassed : u ∉ Source.passed force s units

/-- A unit is passed over and nothing is said about its index file. -/
structure Ignored (src : Source) (force : Bool) (s : Store) (units : List UnitStamp) (u : UnitStamp) : Prop where
  passed : u ∈ Source.passed force s units
  unsaid : ∀ x ∈ src.refusals force s units, x.1.indexFile ≠ u.indexFile

namespace MemorySource

/-- What an unreadable unit is offered as. -/
def unreadable (indexFile : String) : UnitStamp :=
  ⟨indexFile, unreadableStamp, none⟩

/-- All units that can be read have smaller stamps than the unreadable ones. -/
def Dated (m : MemorySource) : Prop :=
  ∀ key u, (key, .ok u) ∈ m.units → u.stamp < unreadableStamp

end MemorySource

/-- How an update from a source in memory treats its unreadable units, on a store that has been seeded: it counts and
reports what it has tried in vain and counts what it has passed over; the row of an unreadable unit stays, and the unit
is tried unless its row has a stamp as large as its own. -/
structure Treats (r : Round) (m : MemorySource) (s seeded : Store) (seedReports : List String) (result : Summary) :
    Prop where
  failed : result.failed = (r.src.refusals r.force seeded (m.units.map MemorySource.stampOf)).length
  skipped : result.skipped = (Source.passed r.force seeded (m.units.map MemorySource.stampOf)).length
  reports : (r.on s).reports =
    seedReports ++ (r.src.refusals r.force seeded (m.units.map MemorySource.stampOf)).map fun x => x.2.display
  row : ∀ key reason, (key, .error reason) ∈ m.units → (r.on s).store.unit? key = seeded.unit? key
  attempted : ∀ key reason, (key, .error reason) ∈ m.units →
    (r.force = true ∨ ∀ row, seeded.unit? key = some row → row.stamp < unreadableStamp) →
    Attempted r.src r.force seeded (m.units.map MemorySource.stampOf) (MemorySource.unreadable key)
      ((Defect.unreadable reason).failure key)
  ignored : ∀ key reason row, (key, .error reason) ∈ m.units → r.force = false → seeded.unit? key = some row →
    unreadableStamp ≤ row.stamp →
    Ignored r.src r.force seeded (m.units.map MemorySource.stampOf) (MemorySource.unreadable key)

/-! ## Counts and reports -/

section Counts

variable {src : Source} {config : Config} {force : Bool} {s : Store} {units : List UnitStamp}

theorem refused_make (src : Source) (config : Config) (force : Bool) (s : Store) (units : List UnitStamp) :
    src.refused (Plan.make config force s units).offered = (src.refusals force s units).map Prod.snd := by
  unfold Source.refused Source.refusals Plan.make
  rw [List.filterMap_map, List.map_filterMap]
  refine List.filterMap_congr fun u _ => ?_
  simp only [Function.comp_apply]
  cases force || !u.isUpToDate (s.unit? u.indexFile) with
  | false => rfl
  | true => cases src.fetch u <;> rfl

theorem length_passed (config : Config) (force : Bool) (s : Store) (units : List UnitStamp) :
    units.length - (Plan.make config force s units).staleCount = (Source.passed force s units).length := by
  have hsum := List.length_eq_length_filter_add (l := units) fun u => force || !u.isUpToDate (s.unit? u.indexFile)
  have hstale : (Plan.make config force s units).staleCount =
      (units.filter fun u => force || !u.isUpToDate (s.unit? u.indexFile)).length := by
    rw [Plan.staleCount, Plan.make, List.filter_map, List.length_map]
    rfl
  rw [hstale, Source.passed]
  omega

/-- An update of a store that can be seeded, from a faithful source, counts and reports what it has tried and passed. -/
theorem on_counts {r : Round} (hsrc : r.src.Faithful) (hunits : r.src.units = .ok units) {seeded : Store}
    {copied : Bool} {reports : List String} (hseed : s.seed r.baseline = .ok (seeded, copied, reports)) :
    ∃ m, (r.on s).outcome = .ok m ∧ m.failed = (r.src.refusals r.force seeded units).length ∧
      m.skipped = (Source.passed r.force seeded units).length ∧
      (r.on s).reports = reports ++ (r.src.refusals r.force seeded units).map (fun x => x.2.display) ∧
      (r.on s).store = (settled r.canon r.config r.force r.src seeded units).store := by
  obtain ⟨hfailed, hreports⟩ := settled_frame r.canon r.config r.force r.src seeded units
  rw [refused_make, List.length_map] at hfailed
  rw [refused_make, List.map_map] at hreports
  rw [Round.on, update_of_seed hseed,
    show seeded.update r.canon r.config r.src r.force none = _ from update_settled r.force hsrc hunits]
  exact ⟨_, rfl, hfailed, length_passed r.config r.force seeded units, congrArg (reports ++ ·) hreports, rfl⟩

/-- A unit that cannot be ingested leaves the row of its index file alone. -/
theorem unit?_settled_of_fails {canon : String → String} (hs : s.Sound) (hsrc : src.Faithful)
    (hunits : src.units = .ok units) {u : UnitStamp} (hu : u ∈ units) (hfails : src.fails u = true) :
    (settled canon config force src s units).store.unit? u.indexFile = s.unit? u.indexFile := by
  have htaken : u.indexFile ∉ (src.taken force s units).map UnitStamp.indexFile := by
    intro hmem
    obtain ⟨v, hv, hfile⟩ := List.mem_map.1 hmem
    obtain ⟨hv, htaken⟩ := List.mem_filter.1 hv
    obtain rfl := List.inj_on_of_nodup_map (hsrc units hunits).1 hv hu hfile
    simp [hfails] at htaken
  rw [settled_other hs hsrc hunits htaken, if_neg fun h => (mem_missing_make h).2.2 u hu rfl]

theorem mem_refusals {x : UnitStamp × Failure} : x ∈ src.refusals force s units ↔
    x.1 ∈ units ∧ (force || !x.1.isUpToDate (s.unit? x.1.indexFile)) = true ∧ src.fetch x.1 = .error x.2 := by
  unfold Source.refusals
  rw [List.mem_filterMap]
  constructor
  · rintro ⟨u, hu, h⟩
    split at h
    · split at h
      · cases h
      · obtain rfl := Option.some.inj h
        exact ⟨hu, ‹_›, ‹_›⟩
    · cases h
  · rintro ⟨hu, hstale, hfetch⟩
    exact ⟨x.1, hu, by rw [if_pos hstale, hfetch]⟩

theorem refusals_filter (u : UnitStamp) : (src.refusals force s units).filter (fun x => x.1.indexFile == u.indexFile) =
    src.refusals force s (units.filter fun v => v.indexFile == u.indexFile) := by
  unfold Source.refusals
  rw [List.filter_filterMap, List.filterMap_filter]
  refine List.filterMap_congr fun v _ => ?_
  cases force || !v.isUpToDate (s.unit? v.indexFile) with
  | false => simp
  | true => cases src.fetch v <;> simp [Option.filter]

/-- A stale unit that cannot be ingested is tried, and only once. -/
theorem attempted_of_stale (hn : (units.map UnitStamp.indexFile).Nodup) {u : UnitStamp} (hu : u ∈ units) {f : Failure}
    (hfetch : src.fetch u = .error f) (hstale : (force || !u.isUpToDate (s.unit? u.indexFile)) = true) :
    Attempted src force s units u f where
  once := by
    rw [refusals_filter, Store.filter_key_eq_singleton hn hu]
    unfold Source.refusals
    rw [List.filterMap_cons_some (by rw [if_pos hstale, hfetch]), List.filterMap_nil]
  notPassed hpassed := by
    have hfresh := (List.mem_filter.1 hpassed).2
    rw [hstale] at hfresh
    cases hfresh

/-- A unit that is passed over is not reported, and none of its index file is. -/
theorem ignored_of_fresh (hn : (units.map UnitStamp.indexFile).Nodup) {u : UnitStamp} (hu : u ∈ units)
    (hfresh : (force || !u.isUpToDate (s.unit? u.indexFile)) = false) : Ignored src force s units u where
  passed := List.mem_filter.2 ⟨hu, by rw [hfresh]; rfl⟩
  unsaid x hx hfile := by
    obtain ⟨hmem, hstale, -⟩ := mem_refusals.1 hx
    rw [List.inj_on_of_nodup_map hn hmem hu hfile, hfresh] at hstale
    cases hstale

end Counts

/-! ## Unreadable units -/

namespace MemorySource

variable {m : MemorySource} {key reason : String}

theorem isUpToDate_unreadable {row : Option UnitRow} :
    (unreadable key).isUpToDate row = true ↔ ∃ r, row = some r ∧ unreadableStamp ≤ r.stamp := by
  cases row with
  | none => simp [UnitStamp.isUpToDate]
  | some r =>
    show decide (unreadableStamp ≤ r.stamp) = true ↔ _
    simp

theorem unreadable_mem (h : (key, .error reason) ∈ m.units) : unreadable key ∈ m.units.map stampOf :=
  List.mem_map.2 ⟨_, h, rfl⟩

theorem Built.fetch_unreadable (hm : m.Built) (h : (key, .error reason) ∈ m.units) :
    m.toSource.fetch (unreadable key) = .error ((Defect.unreadable reason).failure key) := by
  have hfind := hm.ordered.find? h
  have hload : m.toSource.load (unreadable key) = .error ((Defect.unreadable reason).failure key) := by
    show m.load (stampOf (key, .error reason)) = _
    simp only [load, hfind]
    rfl
  rw [Source.fetch, hload]

end MemorySource

section Updates

open MemorySource

variable {Canonical : (String → String) → Prop} {s : Store} {m : MemorySource}

/-- An update from a source in memory, of a store that can be seeded. -/
theorem treats_unreadable (hs : s.Reachable Canonical) (hm : m.Built) {r : Round} (hr : r.Proper Canonical)
    (hsrc : r.src = m.toSource) {seeded : Store} {copied : Bool} {reports : List String}
    (hseed : s.seed r.baseline = .ok (seeded, copied, reports)) :
    ∃ result, (r.on s).outcome = .ok result ∧ Treats r m s seeded reports result := by
  have hunits : r.src.units = .ok (m.units.map stampOf) := by rw [hsrc]; rfl
  have hsound := Store.seeded_sound hs hr hseed
  have hn := (hr.faithful _ hunits).1
  have hfetch : ∀ key reason, (key, .error reason) ∈ m.units →
      r.src.fetch (unreadable key) = .error ((Defect.unreadable reason).failure key) := by
    rw [hsrc]
    exact fun key reason h => hm.fetch_unreadable h
  obtain ⟨result, hok, hfailed, hskipped, hreports, hstore⟩ := on_counts hr.faithful hunits hseed
  refine ⟨result, hok, hfailed, hskipped, hreports, fun key reason h => ?_, fun key reason h hstale => ?_,
    fun key reason row h hforce hrow hle => ?_⟩
  · have hfails : r.src.fails (unreadable key) = true := by rw [Source.fails, hfetch key reason h]; rfl
    rw [hstore]
    exact unit?_settled_of_fails hsound hr.faithful hunits (unreadable_mem h) hfails
  · refine attempted_of_stale hn (unreadable_mem h) (hfetch key reason h) ?_
    rw [Bool.or_eq_true, Bool.not_eq_true', ← Bool.not_eq_true, isUpToDate_unreadable]
    refine hstale.imp_right ?_
    rintro hsmaller ⟨row, hrow, hle⟩
    exact absurd hle (Int.not_le.2 (hsmaller row hrow))
  · refine ignored_of_fresh hn (unreadable_mem h) ?_
    have hfresh : (unreadable key).isUpToDate (seeded.unit? (unreadable key).indexFile) = true :=
      isUpToDate_unreadable.2 ⟨row, hrow, hle⟩
    rw [hforce, hfresh]
    rfl

end Updates

namespace Store

/-- The stores that updates from sources in memory lead to, baselines included, where all units that can be read have
smaller stamps than the unreadable ones. -/
inductive Dated : Store → Prop
  | fresh : Dated Store.fresh
  | update {s : Store} {m : MemorySource} {r : Round} : Dated s → m.Built → m.Dated → r.src = m.toSource →
      (∀ saved, r.baseline = some (.saved saved) → Dated saved) → Dated (r.on s).store

/-- All units are stored with smaller stamps than those of unreadable ones. -/
def Early (s : Store) : Prop :=
  ∀ row ∈ s.units, row.stamp < unreadableStamp

variable {s : Store}

theorem Dated.reachable (h : s.Dated) : s.Reachable fun _ => True := by
  induction h with
  | fresh => exact .fresh
  | update _ _ _ _ _ hs hb => exact .update hs trivial hb

/-- An update from such a source stores stamps that are smaller than that of unreadable units. -/
theorem early_of_accounted {m : MemorySource} (hm : m.Built) (hdated : m.Dated) {config : Config} {force : Bool}
    {t : Store} {result : Summary} (ht : t.Distinct)
    (h : Accounted config m.toSource force (m.units.map MemorySource.stampOf) s t result)
    (hs : s.Early) : t.Early := by
  intro row hrow
  by_cases htaken : row.indexFile ∈
      (m.toSource.taken force s (m.units.map MemorySource.stampOf)).map UnitStamp.indexFile
  · obtain ⟨u, hu, hfile⟩ := List.mem_map.1 htaken
    obtain ⟨id, hwritten⟩ := h.written u hu
    obtain rfl := List.inj_on_of_nodup_map ht.indexFiles hwritten hrow hfile
    obtain ⟨hoffered, hgood⟩ := List.mem_filter.1 hu
    obtain ⟨⟨key, reason | record⟩, hentry, rfl⟩ := List.mem_map.1 hoffered
    -- a unit that is taken can be read
    · have hfails : m.toSource.fails (MemorySource.unreadable key) = true := by
        rw [Source.fails, hm.fetch_unreadable hentry]
        rfl
      rw [show MemorySource.stampOf (key, .error reason) = MemorySource.unreadable key from rfl, hfails] at hgood
      simp at hgood
    · exact hdated key record hentry
  · exact hs row (h.kept row hrow htaken)

/-- A baseline brings the stamps that it was saved with. -/
theorem seed_early {baseline : Option Baseline} (hs : s.Early)
    (hb : ∀ saved, baseline = some (.saved saved) → saved.Early) {seeded : Store} {copied : Bool}
    {reports : List String} (hseed : s.seed baseline = .ok (seeded, copied, reports)) : seeded.Early := by
  refine seed_steady (P := Early) (fun {s} h row hrow => ?_) hs hb hseed
  obtain ⟨row', hrow', rfl⟩ := List.mem_map.1 hrow
  exact h row' hrow'

theorem Dated.early (h : s.Dated) : s.Early := by
  induction h with
  | fresh => exact fun row h => by cases h
  | @update s m r hs hm hdated hsrc hb ih ihb =>
    have hr : r.Proper fun _ => True := ⟨trivial, hsrc ▸ hm.faithful, fun saved h => (hb saved h).reachable⟩
    have hsound : (r.on s).store.Sound := (on_reachable hs.reachable hr).sound
    cases hseed : s.seed r.baseline with
    | error f =>
      rw [Round.on, update_of_seed_error hseed]
      exact ih
    | ok result =>
      obtain ⟨seeded, copied, reports⟩ := result
      have hunits : r.src.units = .ok (m.units.map MemorySource.stampOf) := by rw [hsrc]; rfl
      have hon : (seeded.update r.canon r.config r.src r.force none).outcome = _ :=
        congrArg UpdateResult.outcome (update_settled r.force hr.faithful hunits)
      have haccount := update_accounted (seeded_sound hs.reachable hr hseed) hr.faithful hunits hon
      have hstore : (r.on s).store = (seeded.update r.canon r.config r.src r.force none).store := by
        rw [Round.on, update_of_seed hseed]
      rw [← hstore, hsrc] at haccount
      exact early_of_accounted hm hdated hsound.toDistinct haccount (seed_early ih ihb hseed)

end Store

/-- An update from a source in memory, of any reachable store that can be seeded, succeeds. It tries each unreadable
unit and reports it once, and its row stays; the units that it passes over instead are those whose row has a stamp as
large as theirs, if all is not forced. There are none where such updates alone have led to the store and all units
that could be read had smaller stamps. -/
theorem unreadable_attempted {Canonical : (String → String) → Prop} {s : Store} (hs : s.Reachable Canonical)
    {m : MemorySource} (hm : m.Built) {r : Round} (hr : r.Proper Canonical) (hsrc : r.src = m.toSource) {seeded : Store}
    {copied : Bool} {reports : List String} (hseed : s.seed r.baseline = .ok (seeded, copied, reports)) :
    (∃ result, (r.on s).outcome = .ok result ∧ Treats r m s seeded reports result) ∧
      (s.Dated → (∀ saved, r.baseline = some (.saved saved) → saved.Dated) →
        ∀ key reason, (key, .error reason) ∈ m.units →
        Attempted r.src r.force seeded (m.units.map MemorySource.stampOf) (MemorySource.unreadable key)
          ((Defect.unreadable reason).failure key)) := by
  obtain ⟨result, hok, htreats⟩ := treats_unreadable hs hm hr hsrc hseed
  refine ⟨⟨result, hok, htreats⟩, fun hdated hb key reason hmem => ?_⟩
  have hsound := Store.seeded_sound hs hr hseed
  have hearly := Store.seed_early hdated.early (fun saved h => (hb saved h).early) hseed
  exact htreats.attempted key reason hmem
    (.inr fun row hrow => hearly row ((Store.unit?_eq_some hsound.toDistinct).1 hrow).1)

namespace Sample

/-- Two units, the second one with a stamp as large as that of unreadable units. -/
def late : MemorySource :=
  .ofUnits [recording 1 [declared], { referring declared with stamp := unreadableStamp }]

/-- That source once neither unit can be read. -/
def lost : MemorySource :=
  (late.insertUnreadable "a.ali" "no header").insertUnreadable "b.ali" "no header"

/-- An update from that source. -/
def lostRound : Round :=
  ⟨Path.normalize, { pruneMissingUnits := false }, lost.toSource, false, none⟩

/-- The store of a new database that has taken in both units. -/
def lateStore : Store :=
  (Store.fresh.update Path.normalize {} late.toSource false none).store

end Sample

open Sample in
/-- Where both units have been read before, the second one is passed over; a new database tries both. -/
theorem lostRound_attempted :
    (lostRound.on lateStore).outcome = .ok { offered := 2, skipped := 1, failed := 1 } ∧
      (lostRound.on lateStore).reports = ["[source_defect] a.ali: no header"] ∧
      (∃ result, (lostRound.on lateStore).outcome = .ok result ∧ Treats lostRound lost lateStore lateStore [] result) ∧
      Attempted lost.toSource false Store.fresh [MemorySource.unreadable "a.ali", MemorySource.unreadable "b.ali"]
        (MemorySource.unreadable "b.ali") ⟨.sourceDefect, "b.ali: no header", none⟩ := by
  have hlate : late.Built := .foldl_insert _ .empty
  have hlost : lost.Built := .insertUnreadable _ _ (.insertUnreadable _ _ hlate)
  have hproper : lostRound.Proper fun _ => True := ⟨trivial, hlost.faithful, fun _ h => by cases h⟩
  have hreach : lateStore.Reachable fun _ => True := .update .fresh trivial fun _ h => by cases h
  have hentry : ("b.ali", .error "no header") ∈ lost.units := by decide +kernel
  refine ⟨by decide +kernel, by decide +kernel, (unreadable_attempted hreach hlost hproper rfl rfl).1, ?_⟩
  exact (unreadable_attempted .fresh hlost hproper rfl rfl).2 .fresh (fun _ h => by cases h) "b.ali" "no header" hentry

end CrossIndex
