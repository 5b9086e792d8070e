/-
The pass of an update as a walk over units. The stale units of a source are those that are new or have
changed; they are written one after the other, and then the units that the source no longer offers
are pruned. Main statement: an update takes a mirror of the units of before to a mirror of the units
that the source offers.
-/
import CrossIndex.Proofs.Update.Storage
import CrossIndex.Proofs.Update.Underway

namespace CrossIndex

/-- A source offers some given units, each under its own stamp, and nothing else. -/
structure Source.Presents (src : Source) (us : List UnitRecord) : Prop where
  units : src.units = .ok (us.map UnitRecord.unitStamp)
  load : ∀ u ∈ us, src.load u.unitStamp = .ok u

variable {canon : String → String} {old new cur : List UnitRecord} {s : Store} {src : Source}

/-! ## What is stale and what is missing -/

theorem Tracks.unit?_eq {us : List UnitRecord} (h : Tracks canon us s) {u : UnitRecord} (hu : u ∈ us) :
    ∃ id, s.unit? u.indexFile = some ⟨id, u.indexFile, u.stamp, u.checksum, false⟩ := by
  obtain ⟨row, hrow, hf⟩ := h.entered u hu
  obtain ⟨u', hu', he⟩ := h.units row hrow
  have hfile : u'.indexFile = u.indexFile := by
    rw [he] at hf
    exact hf
  obtain rfl := eq_of_indexFile_eq h.distinct hu' hu hfile
  exact ⟨row.id, (Store.unit?_eq_some h.sound.toDistinct).2 ⟨he ▸ hrow, rfl⟩⟩

theorem Tracks.unit?_eq_none {us : List UnitRecord} (h : Tracks canon us s) {file : String}
    (hfile : ∀ u ∈ us, u.indexFile ≠ file) : s.unit? file = none := by
  rcases hrow : s.unit? file with _ | row
  · rfl
  · obtain ⟨hrow, hf⟩ := (Store.unit?_eq_some h.sound.toDistinct).1 hrow
    obtain ⟨u, hu, he⟩ := h.units row hrow
    exact absurd (by rw [← hf, he]) (hfile u hu)

/-- An offered unit is stale exactly if it is new or has changed. -/
theorem isUpToDate_iff (hT : Turn canon old new) (h : Tracks canon old s) {u : UnitRecord} (hu : u ∈ new) :
    u.unitStamp.isUpToDate (s.unit? u.indexFile) = true ↔ u ∈ old := by
  by_cases hf : ∃ u' ∈ old, u'.indexFile = u.indexFile
  · obtain ⟨u', hu', hf⟩ := hf
    obtain ⟨id, hrow⟩ := h.unit?_eq hu'
    have hsum : u.checksum = none := hT.coherent.unsummed u (List.mem_append_right _ hu)
    rw [← hf, hrow]
    simp only [UnitStamp.isUpToDate, UnitRecord.unitStamp, hsum, decide_eq_true_eq]
    constructor
    · intro hle
      by_contra hno
      have := hT.newer u' hu' u hu hf fun he => hno (he ▸ hu')
      omega
    · intro ho
      rw [eq_of_indexFile_eq h.distinct ho hu' hf.symm]
  · rw [h.unit?_eq_none fun u' hu' he => hf ⟨u', hu', he⟩]
    constructor
    · intro he
      cases he
    · intro ho
      exact absurd ⟨u, ho, rfl⟩ hf

theorem mem_missing {config : Config} (hprune : config.pruneMissingUnits = true) {force : Bool} (h : Tracks canon old s)
    {file : String} : file ∈ (Plan.make config force s (new.map UnitRecord.unitStamp)).missing ↔
      (∃ u ∈ old, u.indexFile = file) ∧ ∀ u ∈ new, u.indexFile ≠ file := by
  have hlocal : file ∈ Plan.localUnits s ↔ ∃ u ∈ old, u.indexFile = file := by
    unfold Plan.localUnits
    rw [List.mem_mergeSort, List.mem_map]
    constructor
    · rintro ⟨row, hrow, rfl⟩
      obtain ⟨u, hu, he⟩ := h.units row (List.mem_of_mem_filter hrow)
      exact ⟨u, hu, by rw [he]⟩
    · rintro ⟨u, hu, rfl⟩
      obtain ⟨id, hrow⟩ := h.unit?_eq hu
      have hmem := ((Store.unit?_eq_some h.sound.toDistinct).1 hrow).1
      exact ⟨_, List.mem_filter.2 ⟨hmem, rfl⟩, rfl⟩
  unfold Plan.make
  simp only [hprune, if_true, List.mem_filter, hlocal]
  refine and_congr_right fun _ => ?_
  simp [UnitRecord.unitStamp]

/-- A unit of before that is not missing is offered, perhaps with another record. -/
theorem offered_of_notMem_missing {config : Config} (hprune : config.pruneMissingUnits = true) {force : Bool}
    (h : Tracks canon old s) {u : UnitRecord} (hu : u ∈ old)
    (hno : u.indexFile ∉ (Plan.make config force s (new.map UnitRecord.unitStamp)).missing) :
    ∃ u' ∈ new, u'.indexFile = u.indexFile := by
  by_contra hnone
  exact hno ((mem_missing hprune h).2 ⟨⟨u, hu, rfl⟩, fun u' hu' he => hnone ⟨u', hu', he⟩⟩)

/-- If all offered units were there and none is missing, the store mirrors the offered units as it is. -/
theorem mirrors_of_idle {config : Config} (hprune : config.pruneMissingUnits = true) {force : Bool}
    (hT : Turn canon old new) (h : Mirrors canon old s) (hold : ∀ u ∈ new, u ∈ old)
    (hnone : ∀ file ∈ (Plan.make config force s (new.map UnitRecord.unitStamp)).missing, s.unit? file = none) :
    Mirrors canon new s := by
  refine h.of_mem_iff hT.distinct fun u => ⟨hold u, fun ho => ?_⟩
  obtain ⟨id, hrow⟩ := h.unit?_eq ho
  have hno : u.indexFile ∉ (Plan.make config force s (new.map UnitRecord.unitStamp)).missing := by
    intro hf
    rw [hnone _ hf] at hrow
    cases hrow
  obtain ⟨u', hu', hf⟩ := offered_of_notMem_missing hprune h.toTracks ho hno
  rw [← eq_of_indexFile_eq h.distinct (hold u' hu') ho hf]
  exact hu'

/-! ## The steps of a pass -/

namespace Pass

theorem ingest_eq (hp : src.Presents new) (hT : Turn canon old new) {u : UnitRecord} (hu : u ∈ new) (p : Pass) :
    p.ingest canon src none u.unitStamp =
      ({ p with store := p.store.replaceUnit canon u, ingested := p.ingested + 1 }, none) := by
  have hvalid : u.check = .ok () := hT.coherent.valid u (List.mem_append_right _ hu)
  have hwrite : p.store.loadInto canon src none u.unitStamp = (.ok (), p.store.replaceUnit canon u) := by
    unfold Store.loadInto
    rw [hp.load u hu]
    exact Store.commitUnit_none hvalid
  unfold ingest
  rw [hwrite]

/-- How far a pass has come after some of the offered units: these are current, current units of after
stay so, and if nothing was ingested nothing has changed. -/
structure Ingested (canon : String → String) (old new : List UnitRecord) (p q : Pass) (cur done : List UnitRecord) :
    Prop where
  underway : ∃ cur', Underway canon old new cur' q.store ∧ (∀ u ∈ done, u ∈ cur') ∧ ∀ u ∈ cur, u ∈ new → u ∈ cur'
  count : p.ingested ≤ q.ingested
  idle : q.ingested = p.ingested → q.store = p.store ∧ ∀ u ∈ done, u ∈ old

theorem ingestAll_spec (hT : Turn canon old new) (hp : src.Presents new)
    {stale : UnitRecord → Bool} (hstale : ∀ u ∈ new, stale u = false ↔ u ∈ old) (total : Nat) :
    ∀ (us : List UnitRecord) {p : Pass} {cur : List UnitRecord}, (∀ u ∈ us, u ∈ new) →
      Underway canon old new cur p.store →
      ∃ q, p.ingestAll canon src .nothing total (us.map fun u => (u.unitStamp, stale u)) = (q, none) ∧
        Ingested canon old new p q cur us
  | [], p, cur, _, h =>
    ⟨p, rfl, ⟨cur, h, fun _ hu => absurd hu List.not_mem_nil, fun _ hu _ => hu⟩, le_refl _,
      fun _ => ⟨rfl, fun _ hu => absurd hu List.not_mem_nil⟩⟩
  | u :: us, p, cur, hus, h => by
    have hu : u ∈ new := hus u List.mem_cons_self
    have hrest : ∀ u' ∈ us, u' ∈ new := fun u' hu' => hus u' (List.mem_cons_of_mem _ hu')
    rw [List.map_cons, ingestAll]
    cases hst : stale u with
    | true =>
      -- the unit is written, which puts it in the place of the one with its index file
      let p₁ : Pass := { p with store := p.store.replaceUnit canon u, ingested := p.ingested + 1 }
      have h₁ : Underway canon old new (u :: without cur u.indexFile) (p₁.tick total).store := h.write hT hu
      obtain ⟨q, hq, ⟨⟨cur', hcur', hdone, hkeep⟩, hcount, -⟩⟩ := ingestAll_spec hT hp hstale total us hrest h₁
      have hlt : p.ingested < q.ingested := hcount
      simp only [if_true, Faults.nothing_unit, ingest_eq hp hT hu]
      refine ⟨q, hq, ⟨cur', hcur', fun u' hu' => ?_, fun u' hu' hn => ?_⟩, hlt.le, fun he => by omega⟩
      · rcases List.mem_cons.1 hu' with rfl | hu'
        · exact hkeep u' List.mem_cons_self hu
        · exact hdone u' hu'
      · by_cases hf : u'.indexFile = u.indexFile
        · rw [eq_of_indexFile_eq hT.distinct hn hu hf]
          exact hkeep u List.mem_cons_self hu
        · exact hkeep u' (List.mem_cons_of_mem _ (mem_without.2 ⟨hu', hf⟩)) hn
    | false =>
      have ho : u ∈ old := (hstale u hu).1 hst
      have h₁ : Underway canon old new cur (p.tick total).store := h
      obtain ⟨q, hq, ⟨⟨cur', hcur', hdone, hkeep⟩, hcount, hidle⟩⟩ := ingestAll_spec hT hp hstale total us hrest h₁
      refine ⟨q, by simpa using hq, ⟨cur', hcur', fun u' hu' => ?_, hkeep⟩, hcount, fun he => ?_⟩
      · rcases List.mem_cons.1 hu' with rfl | hu'
        · exact hkeep u' (h.stayed u' ho hu) hu
        · exact hdone u' hu'
      · refine ⟨(hidle he).1, fun u' hu' => ?_⟩
        rcases List.mem_cons.1 hu' with rfl | hu'
        · exact ho
        · exact (hidle he).2 u' hu'

/-- How far a pass has come after some index files have been pruned. -/
structure Pruned (canon : String → String) (old new : List UnitRecord) (p q : Pass) (cur : List UnitRecord)
    (files : List String) : Prop where
  underway : ∃ cur', Underway canon old new cur' q.store ∧ (∀ u ∈ cur, u ∈ new → u ∈ cur') ∧
    ∀ u ∈ cur', u ∈ cur ∧ u.indexFile ∉ files
  ingested : q.ingested = p.ingested
  count : p.pruned ≤ q.pruned
  idle : q.pruned = p.pruned → q.store = p.store ∧ ∀ file ∈ files, p.store.unit? file = none

theorem pruneAll_spec (hT : Turn canon old new) : ∀ (files : List String) {p : Pass} {cur : List UnitRecord},
    (∀ file ∈ files, ∀ u ∈ new, u.indexFile ≠ file) → Underway canon old new cur p.store →
    Pruned canon old new p (files.foldl prune p) cur files
  | [], p, cur, _, h =>
    ⟨⟨cur, h, fun _ hu _ => hu, fun _ hu => ⟨hu, List.not_mem_nil⟩⟩, rfl, le_refl _,
      fun _ => ⟨rfl, fun _ hf => absurd hf List.not_mem_nil⟩⟩
  | file :: files, p, cur, hfiles, h => by
    have hrest : ∀ file' ∈ files, ∀ u ∈ new, u.indexFile ≠ file' := fun file' hf =>
      hfiles file' (List.mem_cons_of_mem _ hf)
    rw [List.foldl_cons]
    rcases hunit : p.store.unit? file with _ | row
    · have hstep : p.prune file = p := by
        unfold prune
        rw [hunit]
      rw [hstep]
      obtain ⟨⟨cur', hcur', hkeep, hgone⟩, hingested, hcount, hidle⟩ := pruneAll_spec hT files hrest h
      refine ⟨⟨cur', hcur', hkeep, fun u hu => ⟨(hgone u hu).1, fun hf => ?_⟩⟩, hingested, hcount,
        fun he => ⟨(hidle he).1, ?_⟩⟩
      · rcases List.mem_cons.1 hf with hf | hf
        · obtain ⟨id, hrow⟩ := h.unit?_eq (hgone u hu).1
          rw [hf, hunit] at hrow
          cases hrow
        · exact (hgone u hu).2 hf
      · intro file' hf
        rcases List.mem_cons.1 hf with rfl | hf
        · exact hunit
        · exact (hidle he).2 file' hf
    · obtain ⟨hrow, hf⟩ := (Store.unit?_eq_some h.sound.toDistinct).1 hunit
      have hnew : ∀ u ∈ new, u.indexFile ≠ row.indexFile := by
        rw [hf]
        exact hfiles file List.mem_cons_self
      let p₁ : Pass := { p with store := p.store.deleteUnit row.id, pruned := p.pruned + 1 }
      have hstep : p.prune file = p₁ := by
        unfold prune
        rw [hunit]
      have h₁ : Underway canon old new (without cur row.indexFile) p₁.store := h.prune hT hrow hnew
      rw [hstep]
      obtain ⟨⟨cur', hcur', hkeep, hgone⟩, hingested, hcount, -⟩ := pruneAll_spec hT files hrest h₁
      have hlt : p.pruned < (files.foldl prune p₁).pruned := hcount
      refine ⟨⟨cur', hcur', fun u hu hn => hkeep u (mem_without.2 ⟨hu, hnew u hn⟩) hn, fun u hu => ?_⟩,
        hingested, hlt.le, fun he => by omega⟩
      obtain ⟨hu, hno⟩ := hgone u hu
      obtain ⟨hu, hne⟩ := mem_without.1 hu
      exact ⟨hu, by simpa [← hf] using ⟨hne, hno⟩⟩

/-- A pass takes a mirror of the units of before to a mirror of the offered units, and leaves the store
as it is if there is nothing to do. -/
theorem run_spec (hT : Turn canon old new) (h : Mirrors canon old s) (hp : src.Presents new)
    {config : Config} (hprune : config.pruneMissingUnits = true) :
    ∃ q, Pass.run canon src .nothing (Plan.make config false s (new.map UnitRecord.unitStamp)) s = (q, none) ∧
      Mirrors canon new q.store ∧ (q.wrote = false → q.store = s) := by
  let plan := Plan.make config false s (new.map UnitRecord.unitStamp)
  let stale : UnitRecord → Bool := fun u => !u.unitStamp.isUpToDate (s.unit? u.indexFile)
  have hstale : ∀ u ∈ new, stale u = false ↔ u ∈ old := fun u hu => by
    rw [← isUpToDate_iff hT h.toTracks hu, Bool.not_eq_false']
  have hoffered : plan.offered = new.map fun u => (u.unitStamp, stale u) := by
    show (new.map UnitRecord.unitStamp).map _ = _
    rw [List.map_map]
    rfl
  have h₀ : Underway canon old new old ({ store := s : Pass }).store := .start hT h
  obtain ⟨q₁, hq₁, hi⟩ := ingestAll_spec hT hp hstale plan.offered.length new (fun _ hu => hu) h₀
  obtain ⟨cur₁, hcur₁, hdone, -⟩ := hi.underway
  have hr := pruneAll_spec hT plan.missing (fun file hf => ((mem_missing hprune h.toTracks).1 hf).2) hcur₁
  obtain ⟨cur₂, hcur₂, hkeep, hgone⟩ := hr.underway
  let q₂ := plan.missing.foldl prune q₁
  have hrun : Pass.run canon src .nothing plan s = (q₂.finish, none) := by
    rw [run_nothing]
    rw [hoffered] at hq₁ ⊢
    rw [hq₁]
  refine ⟨q₂.finish, hrun, ?_⟩
  unfold finish
  cases hw : q₂.wrote with
  | true =>
    rw [if_pos rfl]
    refine ⟨Mirrors.bump (hcur₂.finish hT (fun u hu => hkeep u (hdone u hu) hu) fun u hu => ?_), fun hno => ?_⟩
    · rcases hcur₂.among u hu with ho | hn
      · exact offered_of_notMem_missing hprune h.toTracks ho (hgone u hu).2
      · exact ⟨u, hn, rfl⟩
    · exact absurd hw (by rw [show q₂.wrote = false from hno]; simp)
  | false =>
    rw [if_neg Bool.false_ne_true]
    -- nothing was ingested and nothing was pruned, so the units of before are those of after
    have hidle : ¬ 0 < q₂.ingested ∧ ¬ 0 < q₂.pruned := by
      simpa only [wrote, Bool.or_eq_false_iff, decide_eq_false_iff_not] using hw
    have hingested : q₁.ingested = 0 := by
      have hsame : q₂.ingested = q₁.ingested := hr.ingested
      omega
    have hpruned : q₂.pruned = q₁.pruned := by
      have hle : q₁.pruned ≤ q₂.pruned := hr.count
      omega
    obtain ⟨hstore₁, hold⟩ := hi.idle hingested
    obtain ⟨hstore₂, hnone⟩ := hr.idle hpruned
    rw [show q₁.store = s from hstore₁] at hnone
    have hstore : q₂.store = s := hstore₂.trans hstore₁
    rw [hstore]
    exact ⟨mirrors_of_idle hprune hT h hold hnone, fun _ => rfl⟩

end Pass

/-- An update without force or baseline succeeds and takes a mirror of the units of before to a mirror
of the offered units. -/
theorem Store.update_mirrors (hT : Turn canon old new) (h : Mirrors canon old s)
    (hp : src.Presents new) {config : Config} (hprune : config.pruneMissingUnits = true) :
    Mirrors canon new (s.update canon config src false none).store := by
  obtain ⟨q, hq, hmirrors, hidle⟩ := Pass.run_spec hT h hp hprune
  have hstore : (s.update canon config src false none).store = q.store := by
    simp only [update_eq, seed, hp.units, updateSeeded_eq, hq]
    split
    · rename_i hstaged
      have hw : q.wrote = false := by
        rw [Bool.and_eq_true, Bool.not_eq_true'] at hstaged
        exact hstaged.2
      exact (hidle hw).symm
    · rfl
  rw [hstore]
  exact hmirrors

end CrossIndex
