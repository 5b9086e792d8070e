/-
Going on after a failure of the storage. The units that a broken off update has written are found up to
date by the next one, and of the others none has changed, so the next update writes exactly what was
left over and prunes what would have been pruned. Main statement: it leads to the same store as an
update that was never interrupted.
-/
import CrossIndex.Proofs.Store.Effect
import CrossIndex.Proofs.Update.Idempotent

namespace CrossIndex

/-- A source that is like another one, but for one offered unit that fails with the storage. -/
structure Source.Interrupts (broken src : Source) (units : List UnitStamp) (u : UnitStamp) (f : Failure) : Prop where
  offered : broken.units = .ok units
  others : ∀ v ∈ units, v ≠ u → broken.load v = src.load v
  fails : broken.load u = .error f
  storage : f.isStorage = true

/-! ## What is to be pruned -/

namespace Plan

/-- The files to prune are in text order, so they are known by the rows of the units that are not
offered. -/
theorem missing_congr {config : Config} {force : Bool} {s t : Store} {units : List UnitStamp}
    (h : (t.units.filter fun r => !units.any fun u => u.indexFile == r.indexFile) =
      s.units.filter fun r => !units.any fun u => u.indexFile == r.indexFile) :
    (Plan.make config force t units).missing = (Plan.make config force s units).missing := by
  let le : String → String → Bool := fun a b => (compare a b).isLE
  let gone : String → Bool := fun file => !units.any fun u => u.indexFile == file
  have hrows : ∀ x : Store, (((x.units.filter fun r => !r.fromBaseline).map UnitRow.indexFile).filter gone) =
      ((x.units.filter fun r => gone r.indexFile).filter fun r => !r.fromBaseline).map UnitRow.indexFile := by
    intro x
    rw [List.filter_map, List.filter_comm]
    rfl
  have hperm : ((localUnits t).filter gone).Perm ((localUnits s).filter gone) := by
    refine ((List.mergeSort_perm _ le).filter gone).trans (.trans ?_ ((List.mergeSort_perm _ le).filter gone).symm)
    rw [hrows, hrows, h]
  have hsorted : ∀ x : Store, ((localUnits x).filter gone).Pairwise fun a b => le a b = true := fun _ =>
    (pairwise_mergeSort_isLE _).filter _
  unfold Plan.make
  simp only
  split
  · refine hperm.eq_of_pairwise (fun a b _ _ hab hba => ?_) (hsorted t) (hsorted s)
    exact Std.LawfulEqCmp.eq_of_compare (Std.OrientedCmp.isLE_antisymm hab hba)
  · rfl

end Plan

namespace Store

variable {canon : String → String} {s : Store}

/-- Writing units leaves the rows of units with other index files. -/
theorem foldl_replaceUnit_others (canon : String → String) : ∀ {us : List UnitRecord} {s : Store}, s.Sound →
    (∀ u ∈ us, u.check = .ok ()) → ∀ {keep : UnitRow → Bool},
    (∀ r, keep r = true → ∀ u ∈ us, r.indexFile ≠ u.indexFile) →
    (us.foldl (replaceUnit canon) s).units.filter keep = s.units.filter keep
  | [], _, _, _, _, _ => rfl
  | u :: us, s, hs, hcheck, keep, hkeep => by
    have hu := hcheck u List.mem_cons_self
    have hdraft : Writer.Drafted canon s (u.respelled canon) (s.drafted canon u) := Writer.drafted_spec_respelled hs hu
    have hothers : ((s.replaceUnit canon u).units.filter fun r => r.indexFile != u.indexFile) =
        s.units.filter fun r => r.indexFile != u.indexFile := (finish_effect hs hu hdraft).units
    have hsound : (s.replaceUnit canon u).Sound := replaceUnit_sound hs hu
    have hrest := foldl_replaceUnit_others canon hsound
      (fun v hv => hcheck v (List.mem_cons_of_mem _ hv)) fun r hr v hv => hkeep r hr v (List.mem_cons_of_mem _ hv)
    have hsub : ∀ rows : List UnitRow, rows.filter keep =
        (rows.filter fun r => r.indexFile != u.indexFile).filter keep := by
      intro rows
      rw [List.filter_filter]
      refine List.filter_congr fun r _ => ?_
      cases hr : keep r with
      | false => rfl
      | true => simp [hkeep r hr u List.mem_cons_self]
    rw [List.foldl_cons, hrest, hsub, hothers, ← hsub]

end Store

/-! ## The plan of the second update -/

section Resume

variable {canon : String → String} {config : Config} {src broken : Source} {s : Store}
  {units done left : List UnitStamp}
  {u : UnitStamp} {f : Failure} {r : UnitRecord}

theorem offered_append (config : Config) (force : Bool) (s : Store) (done left : List UnitStamp) :
    (Plan.make config force s (done ++ left)).offered =
      (Plan.make config force s done).offered ++ (Plan.make config force s left).offered :=
  List.map_append

theorem usable_append (src : Source) (offered offered' : List (UnitStamp × Bool)) :
    src.usable (offered ++ offered') = src.usable offered ++ src.usable offered' :=
  List.filterMap_append

/-- What a faithful source hands over has the index file of a unit that is offered as stale. -/
theorem usable_offered (hsrc : src.Faithful) (hunits : src.units = .ok units) (hin : ∀ v ∈ done, v ∈ units)
    (hr : r ∈ src.usable (Plan.make config false s done).offered) : ∃ v ∈ done, v.indexFile = r.indexFile := by
  obtain ⟨v, hv, hfetch⟩ := Source.mem_usable.1 hr
  obtain ⟨v', hv', heq⟩ := List.mem_map.1 hv
  obtain ⟨rfl, -⟩ := Prod.mk.inj heq
  have hstamp := hsrc.fetch hunits (hin v' hv') hfetch
  exact ⟨v', hv', by rw [← hstamp]; rfl⟩

/-- What is to be pruned is not offered, and what has been written is. -/
theorem missing_resumed (hs : s.Sound) (hsrc : src.Faithful) (hunits : src.units = .ok units)
    (hin : ∀ v ∈ done, v ∈ units) :
    (Plan.make config false ((src.usable (Plan.make config false s done).offered).foldl (Store.replaceUnit canon) s)
      units).missing = (Plan.make config false s units).missing := by
  refine Plan.missing_congr (Store.foldl_replaceUnit_others canon hs Source.usable_check fun row hrow r hr hfile => ?_)
  obtain ⟨v, hv, hvfile⟩ := usable_offered hsrc hunits hin hr
  simp only [Bool.not_eq_true', List.any_eq_false, beq_iff_eq] at hrow
  exact hrow v (hin v hv) (hvfile.trans hfile.symm)

/-- Of the units that have been gone through nothing is left to write, and the others are as stale as
they were. -/
theorem usable_resumed (hs : s.Sound) (hsrc : src.Faithful) (hunits : src.units = .ok (done ++ left)) :
    src.usable (Plan.make config false ((src.usable (Plan.make config false s done).offered).foldl
      (Store.replaceUnit canon) s) (done ++ left)).offered = src.usable (Plan.make config false s left).offered := by
  let written := src.usable (Plan.make config false s done).offered
  let t := written.foldl (Store.replaceUnit canon) s
  have hsub : (written.map UnitRecord.indexFile).Sublist
      ((src.usable (Plan.make config false s (done ++ left)).offered).map UnitRecord.indexFile) := by
    rw [offered_append, usable_append, List.map_append]
    exact List.sublist_append_left _ _
  have hcheck : ∀ r ∈ written, r.check = .ok () := Source.usable_check
  obtain ⟨-, hother, hfresh⟩ := Store.unit?_replaceAll canon hs hcheck
    ((usable_distinct config false s hsrc hunits).sublist hsub)
  have hdone : src.usable (Plan.make config false t done).offered = [] := by
    rw [List.eq_nil_iff_forall_not_mem]
    intro r hr
    obtain ⟨v, hv, hfetch⟩ := Source.mem_usable.1 hr
    obtain ⟨v', hv', heq⟩ := List.mem_map.1 hv
    obtain ⟨rfl, hstale⟩ := Prod.mk.inj heq
    have hmem : v' ∈ done ++ left := List.mem_append_left _ hv'
    -- a unit that loads is up to date by now: it was before, or it has been written
    have hcurrent : v'.isUpToDate (t.unit? v'.indexFile) = true := by
      cases hbefore : v'.isUpToDate (s.unit? v'.indexFile) with
      | true =>
        have hnot : v'.indexFile ∉ written.map UnitRecord.indexFile := fun h =>
          notMem_usable hsrc hunits hmem (.inl hbefore) (hsub.subset h)
        rw [hother _ hnot, hbefore]
      | false =>
        have hr : r ∈ written :=
          Source.mem_usable.2 ⟨v', List.mem_map.2 ⟨v', hv', by simp [hbefore]⟩, hfetch⟩
        obtain ⟨id, hid⟩ := hfresh r hr
        obtain rfl := hsrc.fetch hunits hmem hfetch
        rw [show r.unitStamp.indexFile = r.indexFile from rfl, hid]
        exact isUpToDate_self r.unitStamp id
    simp [t, written, hcurrent] at hstale
  have hleft : (Plan.make config false t left).offered = (Plan.make config false s left).offered := by
    refine List.map_congr_left fun v hv => ?_
    have hnot : v.indexFile ∉ written.map UnitRecord.indexFile := by
      intro hmem
      obtain ⟨r, hr, hfile⟩ := List.mem_map.1 hmem
      obtain ⟨w, hw, hwfile⟩ := usable_offered hsrc hunits (fun _ h => List.mem_append_left _ h) hr
      have hnodup := (hsrc _ hunits).1
      rw [List.map_append] at hnodup
      exact List.disjoint_of_nodup_append hnodup (List.mem_map.2 ⟨w, hw, hwfile.trans hfile⟩)
        (List.mem_map.2 ⟨v, hv, rfl⟩)
    rw [hother _ hnot]
  rw [offered_append, usable_append, hleft]
  exact (congrArg (· ++ _) hdone).trans (List.nil_append _)

/-! ## The store after the second update -/

theorem foldl_prune_store_congr (files : List String) {p q : Pass} (h : p.store = q.store) :
    (files.foldl Pass.prune p).store = (files.foldl Pass.prune q).store := by
  induction files generalizing p q with
  | nil => exact h
  | cons file files ih =>
    rw [List.foldl_cons, List.foldl_cons]
    apply ih
    unfold Pass.prune
    rw [h]
    cases q.store.unit? file with
    | none => exact h
    | some row => rfl

/-- An update that writes a unit is known by what it writes and what it prunes. -/
theorem settled_congr {s' : Store}
    (hsome : src.usable (Plan.make config false s units).offered ≠ [])
    (hsome' : src.usable (Plan.make config false s' units).offered ≠ [])
    (hmissing : (Plan.make config false s units).missing = (Plan.make config false s' units).missing)
    (hstore : (src.usable (Plan.make config false s units).offered).foldl (Store.replaceUnit canon) s =
      (src.usable (Plan.make config false s' units).offered).foldl (Store.replaceUnit canon) s') :
    (settled canon config false src s units).store = (settled canon config false src s' units).store := by
  have hwrote : ∀ x : Store, src.usable (Plan.make config false x units).offered ≠ [] →
      ((Plan.make config false x units).missing.foldl Pass.prune
        (Pass.after canon src units.length { store := x } (Plan.make config false x units).offered)).wrote = true := by
    intro x hx
    unfold Pass.wrote
    rw [(Pass.pruneAll_frame _ _).1]
    have hpos := List.length_pos_of_ne_nil hx
    simp [Pass.after, hpos]
  unfold settled Pass.finish
  rw [if_pos (hwrote s hsome), if_pos (hwrote s' hsome'), hmissing]
  exact congrArg (fun x : Store => x.purgeOrphans.bump) (foldl_prune_store_congr _ hstore)

/-- After a failure at a unit the next update leads to where it would have led at once. -/
theorem settled_resumed (hs : s.Sound) (hsrc : src.Faithful) (hunits : src.units = .ok (done ++ u :: left))
    (hstale : u.isUpToDate (s.unit? u.indexFile) = false) (hr : src.fetch u = .ok r) :
    (settled canon config false src ((src.usable (Plan.make config false s done).offered).foldl
        (Store.replaceUnit canon) s) (done ++ u :: left)).store =
      (settled canon config false src s (done ++ u :: left)).store := by
  have hresumed : src.usable (Plan.make config false ((src.usable (Plan.make config false s done).offered).foldl
      (Store.replaceUnit canon) s) (done ++ u :: left)).offered =
        src.usable (Plan.make config false s (u :: left)).offered := usable_resumed hs hsrc hunits
  have hwhole : src.usable (Plan.make config false s (done ++ u :: left)).offered =
      src.usable (Plan.make config false s done).offered ++
        src.usable (Plan.make config false s (u :: left)).offered := by
    rw [offered_append, usable_append]
  -- the unit that failed is left over, so both updates have something to write
  have hmem : r ∈ src.usable (Plan.make config false s (u :: left)).offered :=
    Source.mem_usable.2 ⟨u, List.mem_map.2 ⟨u, List.mem_cons_self, by simp [hstale]⟩, hr⟩
  apply settled_congr
  · rw [hresumed]
    exact List.ne_nil_of_mem hmem
  · rw [hwhole]
    exact List.append_ne_nil_of_right_ne_nil _ (List.ne_nil_of_mem hmem)
  · exact missing_resumed hs hsrc hunits fun v hv => List.mem_append_left _ hv
  · rw [hresumed, hwhole, List.foldl_append]

/-! ## The failure -/

/-- Before the unit that fails the broken source is as good as the other one. -/
theorem fetch_interrupted (hsrc : src.Faithful) (hunits : src.units = .ok (done ++ u :: left))
    (hint : broken.Interrupts src (done ++ u :: left) u f) {v : UnitStamp} (hv : v ∈ done) :
    broken.fetch v = src.fetch v := by
  have hne : v ≠ u := by
    rintro rfl
    have hnodup := (hsrc _ hunits).1
    rw [List.map_append] at hnodup
    exact List.disjoint_of_nodup_append hnodup (List.mem_map.2 ⟨v, hv, rfl⟩) (by simp)
  unfold Source.fetch
  rw [hint.others v (List.mem_append_left _ hv) hne]

/-- The broken source fails with the storage at the unit and nowhere before. -/
theorem update_interrupted (hsrc : src.Faithful) (hunits : src.units = .ok (done ++ u :: left))
    (hint : broken.Interrupts src (done ++ u :: left) u f) (hstale : u.isUpToDate (s.unit? u.indexFile) = false) :
    (s.update canon config broken false none).outcome = .error f ∧
      (s.update canon config broken false none).store =
        if config.stagingThreshold ≤ (Plan.make config false s (done ++ u :: left)).staleCount then s
        else (src.usable (Plan.make config false s done).offered).foldl (Store.replaceUnit canon) s := by
  have hseed : s.seed none = .ok (s, false, []) := rfl
  have hat : (Plan.make config false s (done ++ u :: left)).offered[done.length]? = some (u, true) := by
    simp [Plan.make, hstale]
  have htake : (Plan.make config false s (done ++ u :: left)).offered.take done.length =
      (Plan.make config false s done).offered := by
    simp [Plan.make]
  have hsame : ∀ v ∈ (Plan.make config false s done).offered, broken.fetch v.1 = src.fetch v.1 := by
    intro v hv
    obtain ⟨v', hv', rfl⟩ := List.mem_map.1 hv
    exact fetch_interrupted hsrc hunits hint hv'
  have hserves : broken.Serves (Plan.make config false s done).offered := by
    intro v hv hdue e he
    rw [hsame v hv] at he
    have hall : v ∈ (Plan.make config false s (done ++ u :: left)).offered := by
      rw [offered_append]
      exact List.mem_append_left _ hv
    exact hsrc.serves hunits false v hall hdue e he
  have husable : broken.usable (Plan.make config false s done).offered =
      src.usable (Plan.make config false s done).offered :=
    List.filterMap_congr fun v hv => by rw [hsame v hv]
  have hfetch : broken.fetch u = .error f := by simp [Source.fetch, hint.fails]
  obtain ⟨houtcome, hstore⟩ : (s.update canon config broken false none).outcome = .error f ∧ _ :=
    Store.update_of_failure hseed hint.offered hat (by rw [htake]; exact hserves) hfetch hint.storage
  rw [htake, husable] at hstore
  exact ⟨houtcome, hstore⟩

end Resume

/-- An update that fails with the storage can be taken up again: the next one ends with the same store, ids
and generation included, as if it had been the only one, and with the unit that failed in it. Each of the
updates may be staged or run in place. -/
theorem failed_update_resumes {Canonical : (String → String) → Prop} {s : Store} (hs : s.Reachable Canonical)
    {src broken : Source} (hsrc : src.Faithful) {units : List UnitStamp} (hunits : src.units = .ok units)
    {u : UnitStamp} (hu : u ∈ units) (hstale : u.isUpToDate (s.unit? u.indexFile) = false) {r : UnitRecord}
    (hload : src.load u = .ok r) (hvalid : r.check = .ok ()) {f : Failure}
    (hint : broken.Interrupts src units u f) (canon : String → String) (config : Config) (k₁ k₂ k₃ : Nat) :
    (s.update canon (config.staging k₁) broken false none).outcome = .error f ∧
      ((s.update canon (config.staging k₁) broken false none).store.update canon (config.staging k₂) src false
        none).outcome.isOk = true ∧
      ((s.update canon (config.staging k₁) broken false none).store.update canon (config.staging k₂) src false
        none).store = (s.update canon (config.staging k₃) src false none).store ∧
      u.isUpToDate ((s.update canon (config.staging k₃) src false none).store.unit? u.indexFile) = true := by
  obtain ⟨done, left, rfl⟩ := List.append_of_mem hu
  have hfetch : src.fetch u = .ok r := by simp [Source.fetch, hload, hvalid]
  obtain ⟨hfailed, hstore⟩ : (s.update canon (config.staging k₁) broken false none).outcome = .error f ∧ _ :=
    update_interrupted hsrc hunits hint hstale
  refine ⟨hfailed, ?_, ?_, ?_⟩
  · rw [update_settled false hsrc hunits]
    rfl
  · rw [update_settled false hsrc hunits, update_settled false hsrc hunits, hstore]
    split
    · rfl
    · exact settled_resumed hs.sound hsrc hunits hstale hfetch
  · rw [update_settled false hsrc hunits, isUpToDate_settled hs.sound hsrc hunits hu]
    simp [Source.fails, hfetch, Except.isOk, Except.toBool]

open Sample in
/-- The second of two units cannot be read at first. In place the first one is written all the same, and
the next update, staged this time, ends as the update of both does. -/
theorem interrupted_resumes :
    (Store.fresh.update Path.normalize (Config.staging {} 100) interrupted false none).store ≠ Store.fresh ∧
      (Store.fresh.update Path.normalize (Config.staging {} 100) interrupted false none).outcome =
        .error (Failure.of .io "read error") ∧
      ((Store.fresh.update Path.normalize (Config.staging {} 100) interrupted false none).store.update Path.normalize
        (Config.staging {} 1) calm false none).store =
          (Store.fresh.update Path.normalize (Config.staging {} 100) calm false none).store := by
  have hunits : calm.units = .ok [⟨"a.ali", 1, none⟩, ⟨"b.ali", 1, none⟩] := by decide +kernel
  have hint : interrupted.Interrupts calm [⟨"a.ali", 1, none⟩, ⟨"b.ali", 1, none⟩] ⟨"b.ali", 1, none⟩
      (Failure.of .io "read error") :=
    ⟨by decide +kernel, by decide +kernel, by decide +kernel, rfl⟩
  have hsrc : calm.Faithful := (MemorySource.Built.foldl_insert _ .empty).faithful
  have hreachable : Store.fresh.Reachable (· = Path.normalize) := .fresh
  obtain ⟨hfailed, -, hstore, -⟩ := failed_update_resumes hreachable hsrc hunits
    (u := ⟨"b.ali", 1, none⟩) (by decide +kernel) (by decide +kernel) (r := referring declared) (by decide +kernel)
    (by decide +kernel) hint Path.normalize {} 100 1 100
  exact ⟨by decide +kernel, hfailed, hstore⟩

end CrossIndex
