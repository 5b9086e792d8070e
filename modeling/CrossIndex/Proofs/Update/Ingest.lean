/-
What a pass does to the offered units, in closed form. Up to the first storage failure the stale
units that load and have no defect are written in the order in which they are offered, the other
stale ones are reported, and every unit is counted. Pruning changes the store only where it counts,
so a pass that has ingested and pruned nothing leaves the store as it was.
-/
import CrossIndex.Proofs.Store.Reachable

namespace CrossIndex

/-! ## Loading and checking a unit -/

namespace Source

/-- Loads a unit and checks it: the record, or why the unit cannot be ingested. -/
def fetch (src : Source) (u : UnitStamp) : Except Failure UnitRecord :=
  match src.load u with
  | .error f => .error f
  | .ok r =>
    match r.check with
    | .ok () => .ok r
    | .error d => .error (d.failure r.indexFile)

/-- The records of the stale units that load and have no defect. -/
def usable (src : Source) (offered : List (UnitStamp × Bool)) : List UnitRecord :=
  offered.filterMap fun v => if v.2 then (src.fetch v.1).toOption else none

/-- Why the other stale units cannot be ingested. -/
def refused (src : Source) (offered : List (UnitStamp × Bool)) : List Failure :=
  offered.filterMap fun v =>
    if v.2 then match src.fetch v.1 with
      | .ok _ => none
      | .error f => some f
    else none

/-- No stale unit fails with the storage. -/
def Serves (src : Source) (offered : List (UnitStamp × Bool)) : Prop :=
  ∀ v ∈ offered, v.2 = true → ∀ f, src.fetch v.1 = .error f → f.isStorage = false

instance (src : Source) (offered : List (UnitStamp × Bool)) : Decidable (src.Serves offered) :=
  inferInstanceAs (Decidable (∀ v ∈ offered, _))

theorem fetch_eq_ok {src : Source} {u : UnitStamp} {r : UnitRecord} (h : src.fetch u = .ok r) :
    src.load u = .ok r ∧ r.check = .ok () := by
  unfold fetch at h
  split at h
  · cases h
  · rename_i r' hload
    split at h
    · cases h
      exact ⟨hload, by assumption⟩
    · cases h

theorem mem_usable {src : Source} {offered : List (UnitStamp × Bool)} {r : UnitRecord} :
    r ∈ src.usable offered ↔ ∃ u, (u, true) ∈ offered ∧ src.fetch u = .ok r := by
  unfold usable
  rw [List.mem_filterMap]
  constructor
  · rintro ⟨⟨u, stale⟩, hv, h⟩
    cases stale with
    | false => simp at h
    | true =>
      refine ⟨u, hv, ?_⟩
      cases hf : src.fetch u with
      | error f => simp [hf, Except.toOption] at h
      | ok r' => simpa [hf, Except.toOption] using h
  · rintro ⟨u, hv, h⟩
    exact ⟨(u, true), hv, by simp [h, Except.toOption]⟩

theorem usable_check {src : Source} {offered : List (UnitStamp × Bool)} :
    ∀ r ∈ src.usable offered, r.check = .ok () := by
  intro r hr
  obtain ⟨u, -, h⟩ := mem_usable.1 hr
  exact (fetch_eq_ok h).2

end Source

namespace Store

variable {canon : String → String} {src : Source} {s : Store} {v : UnitStamp} {r : UnitRecord}

theorem loadInto_of_fetch (h : src.fetch v = .ok r) :
    s.loadInto canon src none v = (.ok (), s.replaceUnit canon r) := by
  obtain ⟨hload, hcheck⟩ := Source.fetch_eq_ok h
  unfold loadInto
  rw [hload]
  exact commitUnit_none hcheck

theorem loadInto_of_fault (h : src.fetch v = .ok r) (fault : Fault) :
    s.loadInto canon src (some fault) v = (.error fault.failure, s) := by
  obtain ⟨hload, hcheck⟩ := Source.fetch_eq_ok h
  unfold loadInto
  rw [hload]
  exact commitUnit_fault fault hcheck

/-- A unit that cannot be fetched fails in the same way whatever the storage does. -/
theorem loadInto_of_refused {f : Failure} (h : src.fetch v = .error f) (fault : Option Fault) :
    s.loadInto canon src fault v = (.error f, s) := by
  unfold Source.fetch at h
  unfold loadInto
  cases hload : src.load v with
  | error e =>
    rw [hload] at h
    cases h
    rfl
  | ok r =>
    simp only [hload] at h
    cases hcheck : r.check with
    | error d =>
      rw [hcheck] at h
      cases h
      exact commitUnit_defect hcheck
    | ok _ =>
      rw [hcheck] at h
      cases h

end Store

/-- No fault comes up where a stale unit is written, in a list of offered units that follows a number of
others. -/
def Faults.Spares (faults : Faults) (src : Source) (before : Nat) (offered : List (UnitStamp × Bool)) : Prop :=
  ∀ (i : Nat) (v : UnitStamp) (r : UnitRecord), offered[i]? = some (v, true) → src.fetch v = .ok r →
    faults.unit (before + i) = none

theorem Faults.nothing_spares {src : Source} {before : Nat} {offered : List (UnitStamp × Bool)} :
    Faults.nothing.Spares src before offered :=
  fun _ _ _ _ _ => rfl

/-- Where no fault comes up before a position, none comes up among the units before it. -/
theorem Faults.spares_take {faults : Faults} {src : Source} {offered : List (UnitStamp × Bool)} {n : Nat}
    (h : ∀ i < n, faults.unit i = none) : faults.Spares src 0 (offered.take n) := by
  intro i v r hv _
  have hlt : i < (offered.take n).length := (List.getElem?_eq_some_iff.1 hv).1
  rw [Nat.zero_add]
  exact h i (hlt.trans_le (List.length_take_le n offered))

theorem Faults.Spares.tail {faults : Faults} {src : Source} {before : Nat} {v : UnitStamp × Bool}
    {offered : List (UnitStamp × Bool)} (h : faults.Spares src before (v :: offered)) :
    faults.Spares src (before + 1) offered := by
  intro i w r hw hr
  have hnone := h (i + 1) w r hw hr
  rwa [show before + 1 + i = before + (i + 1) by omega]

/-! ## Going through the offered units -/

namespace Pass

variable {canon : String → String} {src : Source} {faults : Faults} {total : Nat}

/-- A pass after some offered units, none of which failed with the storage. -/
def after (canon : String → String) (src : Source) (total : Nat) (p : Pass) (offered : List (UnitStamp × Bool)) :
    Pass where
  store := (src.usable offered).foldl (Store.replaceUnit canon) p.store
  ingested := p.ingested + (src.usable offered).length
  failed := p.failed + (src.refused offered).length
  pruned := p.pruned
  reports := p.reports ++ (src.refused offered).map Failure.display
  progress := p.progress ++ (List.range offered.length).map fun i => (p.progress.length + i + 1, total)

theorem after_nil (p : Pass) : p.after canon src total [] = p := by
  simp [after, Source.usable, Source.refused]

theorem progress_cons (done : List (Nat × Nat)) (n total : Nat) :
    done ++ (List.range (n + 1)).map (fun i => (done.length + i + 1, total)) =
      (done ++ [(done.length + 1, total)]) ++
        (List.range n).map fun i => ((done ++ [(done.length + 1, total)]).length + i + 1, total) := by
  rw [List.append_assoc, List.range_succ_eq_map, List.map_cons, List.map_map, List.singleton_append]
  congr 2
  apply List.map_congr_left
  intro i _
  simp only [Function.comp, List.length_append, List.length_singleton, Prod.mk.injEq, and_true]
  omega

/-- One unit, and then the others. -/
theorem after_cons (p : Pass) (v : UnitStamp × Bool) (offered : List (UnitStamp × Bool)) :
    p.after canon src total (v :: offered) = (p.after canon src total [v]).after canon src total offered := by
  have hprogress := progress_cons p.progress offered.length total
  obtain ⟨u, stale⟩ := v
  cases stale with
  | false => simpa [after, Source.usable, Source.refused] using hprogress
  | true =>
    cases hf : src.fetch u with
    | ok r =>
      simp only [after, Source.usable, Source.refused, List.filterMap_cons, hf, Except.toOption, if_true,
        List.filterMap_nil, List.length_cons, List.length_nil, List.foldl_cons, List.foldl_nil, List.map_nil,
        List.append_nil, hprogress]
      simp
      omega
    | error f =>
      simp only [after, Source.usable, Source.refused, List.filterMap_cons, hf, Except.toOption, if_true,
        List.filterMap_nil, List.length_cons, List.length_nil, List.foldl_nil, List.map_cons, List.map_nil, hprogress]
      simp
      omega

theorem length_progress_after (p : Pass) (offered : List (UnitStamp × Bool)) :
    (p.after canon src total offered).progress.length = p.progress.length + offered.length := by
  simp [after]

/-- A unit that is up to date, or does not fail with the storage, is counted and the pass goes on. -/
theorem ingestAll_cons {p : Pass} {v : UnitStamp × Bool} {offered : List (UnitStamp × Bool)}
    (h : v.2 = true → ∀ f, src.fetch v.1 = .error f → f.isStorage = false)
    (hspared : v.2 = true → ∀ r, src.fetch v.1 = .ok r → faults.unit p.progress.length = none) :
    p.ingestAll canon src faults total (v :: offered) =
      (p.after canon src total [v]).ingestAll canon src faults total offered := by
  obtain ⟨u, stale⟩ := v
  cases stale with
  | false =>
    have htick : p.after canon src total [(u, false)] = p.tick total := by
      simp [after, tick, Source.usable, Source.refused]
    rw [htick]
    simp [ingestAll]
  | true =>
    rw [ingestAll, if_pos rfl, ingest]
    cases hf : src.fetch u with
    | ok r =>
      rw [hspared rfl r hf, Store.loadInto_of_fetch hf]
      simp [after, tick, Source.usable, Source.refused, hf, Except.toOption]
    | error f =>
      rw [Store.loadInto_of_refused hf]
      simp [after, tick, Source.usable, Source.refused, hf, Except.toOption, h rfl f hf]

/-- Up to a first storage failure a pass does what `after` says. -/
theorem ingestAll_append {before rest : List (UnitStamp × Bool)} {p : Pass} (h : src.Serves before)
    (hspared : faults.Spares src p.progress.length before) :
    p.ingestAll canon src faults total (before ++ rest) =
      (p.after canon src total before).ingestAll canon src faults total rest := by
  induction before generalizing p with
  | nil => rw [after_nil, List.nil_append]
  | cons v before ih =>
    have hhead : v.2 = true → ∀ r, src.fetch v.1 = .ok r → faults.unit p.progress.length = none := by
      intro hv r hr
      exact hspared 0 v.1 r (by rw [← hv]; rfl) hr
    have htail : faults.Spares src (p.after canon src total [v]).progress.length before := by
      rw [length_progress_after]
      exact hspared.tail
    rw [List.cons_append, ingestAll_cons (h v List.mem_cons_self) hhead, after_cons p v before]
    exact ih (fun v' hv' => h v' (List.mem_cons_of_mem _ hv')) htail

theorem ingestAll_of_spares {offered : List (UnitStamp × Bool)} {p : Pass} (h : src.Serves offered)
    (hspared : faults.Spares src p.progress.length offered) :
    p.ingestAll canon src faults total offered = (p.after canon src total offered, none) := by
  have hall : p.ingestAll canon src faults total (offered ++ []) =
      (p.after canon src total offered).ingestAll canon src faults total [] := ingestAll_append h hspared
  rw [List.append_nil] at hall
  rw [hall, ingestAll]

theorem ingestAll_of_serves {offered : List (UnitStamp × Bool)} {p : Pass} (h : src.Serves offered) :
    p.ingestAll canon src .nothing total offered = (p.after canon src total offered, none) :=
  ingestAll_of_spares h Faults.nothing_spares

/-- The first storage failure, when a unit is loaded or when it is written, ends the pass where it
stands. -/
theorem ingestAll_of_fails {before rest : List (UnitStamp × Bool)} {u : UnitStamp} {f : Failure} {p : Pass}
    (h : src.Serves before) (hspared : faults.Spares src p.progress.length before)
    (hu : ((p.after canon src total before).store.loadInto canon src (faults.unit (p.progress.length + before.length))
      u).1 = .error f)
    (hf : f.isStorage = true) :
    p.ingestAll canon src faults total (before ++ (u, true) :: rest) = (p.after canon src total before, some f) := by
  have hbroken : (p.after canon src total before).store.loadInto canon src
      (faults.unit (p.progress.length + before.length)) u = (.error f, (p.after canon src total before).store) :=
    Prod.ext hu (Store.loadInto_of_error hu)
  rw [ingestAll_append h hspared]
  unfold ingestAll ingest
  rw [length_progress_after, hbroken]
  simp [hf]

/-- A list of offered units is served to its end, or there is a first storage failure in it. -/
theorem serves_or_fails (src : Source) : ∀ offered : List (UnitStamp × Bool), src.Serves offered ∨
    ∃ before u rest f, offered = before ++ (u, true) :: rest ∧ src.Serves before ∧ src.fetch u = .error f ∧
      f.isStorage = true
  | [] => .inl fun _ h => by cases h
  | (u, stale) :: offered => by
    by_cases hfails : stale = true ∧ ∃ f, src.fetch u = .error f ∧ f.isStorage = true
    · obtain ⟨rfl, f, hu, hf⟩ := hfails
      exact .inr ⟨[], u, offered, f, rfl, fun _ h => (by cases h), hu, hf⟩
    · have hhead : stale = true → ∀ f, src.fetch u = .error f → f.isStorage = false := by
        intro hs f hu
        cases hst : f.isStorage with
        | false => rfl
        | true => exact absurd ⟨hs, f, hu, hst⟩ hfails
      rcases serves_or_fails src offered with h | ⟨before, u', rest, f, rfl, hb, hu', hf⟩
      · left
        rintro v (_ | ⟨_, hv⟩)
        · exact hhead
        · exact h v hv
      · refine .inr ⟨(u, stale) :: before, u', rest, f, rfl, ?_, hu', hf⟩
        rintro v (_ | ⟨_, hv⟩)
        · exact hhead
        · exact hb v hv

/-! ## Pruning and the end of a pass -/

/-- Pruning touches nothing but the store and its own count. -/
theorem pruneAll_frame : ∀ (files : List String) (p : Pass), (files.foldl prune p).ingested = p.ingested ∧
    (files.foldl prune p).failed = p.failed ∧ (files.foldl prune p).reports = p.reports ∧
    (files.foldl prune p).progress = p.progress ∧ p.pruned ≤ (files.foldl prune p).pruned ∧
    ((files.foldl prune p).pruned = p.pruned → files.foldl prune p = p)
  | [], p => ⟨rfl, rfl, rfl, rfl, le_refl _, fun _ => rfl⟩
  | file :: files, p => by
    obtain ⟨h1, h2, h3, h4, h5, h6⟩ := pruneAll_frame files (p.prune file)
    rw [List.foldl_cons]
    cases hu : p.store.unit? file with
    | none =>
      have hstep : p.prune file = p := by simp [prune, hu]
      rw [hstep] at h1 h2 h3 h4 h5 h6 ⊢
      exact ⟨h1, h2, h3, h4, h5, h6⟩
    | some row =>
      have hstep : p.prune file = { p with store := p.store.deleteUnit row.id, pruned := p.pruned + 1 } := by
        simp [prune, hu]
      rw [hstep] at h1 h2 h3 h4 h5 h6 ⊢
      simp only at h1 h2 h3 h4 h5
      refine ⟨h1, h2, h3, h4, by omega, fun he => by omega⟩

theorem wrote_eq_false {p : Pass} : p.wrote = false ↔ p.ingested = 0 ∧ p.pruned = 0 := by
  simp [wrote]

theorem finish_wrote (p : Pass) : p.finish.wrote = p.wrote := by
  unfold finish
  split <;> rfl

/-- The end of a pass touches nothing but the store. -/
theorem finish_frame (p : Pass) : p.finish.ingested = p.ingested ∧ p.finish.failed = p.failed ∧
    p.finish.pruned = p.pruned ∧ p.finish.reports = p.reports := by
  unfold finish
  split <;> exact ⟨rfl, rfl, rfl, rfl⟩

/-- A run in which all units are served prunes and ends. -/
theorem run_of_serves {plan : Plan} {s : Store} (h : src.Serves plan.offered) : Pass.run canon src .nothing plan s =
    ((plan.missing.foldl prune (Pass.after canon src plan.offered.length { store := s } plan.offered)).finish,
      none) := by
  rw [run_nothing, ingestAll_of_serves h]

/-- A run meets its first failure of the storage at a unit and stops there. -/
theorem run_of_fails {plan : Plan} {s : Store} {before rest : List (UnitStamp × Bool)} {u : UnitStamp} {f : Failure}
    (hoffered : plan.offered = before ++ (u, true) :: rest) (h : src.Serves before)
    (hspared : faults.Spares src 0 before)
    (hu : (((src.usable before).foldl (Store.replaceUnit canon) s).loadInto canon src (faults.unit before.length) u).1 =
      .error f)
    (hf : f.isStorage = true) :
    Pass.run canon src faults plan s =
      (Pass.after canon src plan.offered.length { store := s } before, some f) := by
  have hall : Pass.ingestAll canon src faults plan.offered.length { store := s } (before ++ (u, true) :: rest) =
      (Pass.after canon src plan.offered.length { store := s } before, some f) :=
    ingestAll_of_fails h hspared (by rw [List.length_nil, Nat.zero_add]; exact hu) hf
  rw [← hoffered] at hall
  unfold run
  rw [hall]

/-- How a run ends where the storage fails in loading only: with the first failure, or after pruning. -/
theorem run_cases (canon : String → String) (src : Source) (plan : Plan) (s : Store) :
    (src.Serves plan.offered ∧ Pass.run canon src .nothing plan s =
      ((plan.missing.foldl prune (Pass.after canon src plan.offered.length { store := s } plan.offered)).finish,
        none)) ∨
    ∃ before u rest f, plan.offered = before ++ (u, true) :: rest ∧ src.Serves before ∧ src.fetch u = .error f ∧
      f.isStorage = true ∧
      Pass.run canon src .nothing plan s =
        (Pass.after canon src plan.offered.length { store := s } before, some f) := by
  rcases serves_or_fails src plan.offered with h | ⟨before, u, rest, f, hoff, hb, hu, hf⟩
  · exact .inl ⟨h, run_of_serves h⟩
  · refine .inr ⟨before, u, rest, f, hoff, hb, hu, hf, ?_⟩
    exact run_of_fails hoff hb Faults.nothing_spares (by rw [Store.loadInto_of_refused hu]) hf

/-- A run that has written nothing leaves the store as it was. -/
theorem run_store_of_idle {plan : Plan} {s : Store} {p : Pass} {failure : Option Failure}
    (h : Pass.run canon src .nothing plan s = (p, failure)) (hw : p.wrote = false) : p.store = s := by
  have hafter : ∀ offered, (Pass.after canon src plan.offered.length { store := s } offered).ingested = 0 →
      (Pass.after canon src plan.offered.length { store := s } offered).store = s := by
    intro offered h0
    have hnil : src.usable offered = [] := by simpa [after] using h0
    simp [after, hnil]
  rcases run_cases canon src plan s with ⟨-, hrun⟩ | ⟨before, u, rest, f, -, -, -, -, hrun⟩
  · obtain ⟨rfl, -⟩ := Prod.mk.inj (h.symm.trans hrun)
    -- nothing ingested leaves the store, and pruning that counts nothing does nothing
    rw [finish_wrote] at hw
    obtain ⟨hi, hp⟩ := wrote_eq_false.1 hw
    obtain ⟨h1, -, -, -, h5, h6⟩ := pruneAll_frame plan.missing
      (Pass.after canon src plan.offered.length { store := s } plan.offered)
    rw [h1] at hi
    rw [finish, if_neg (by simp [hw]), h6 (by omega)]
    exact hafter _ hi
  · obtain ⟨rfl, -⟩ := Prod.mk.inj (h.symm.trans hrun)
    exact hafter _ (wrote_eq_false.1 hw).1

end Pass

end CrossIndex
