/-
What the purge at the end of an update takes away: entities to which nothing points, and nothing else. An
orphan is no end of any row, so its deletion takes no row along and clears no scope; therefore no other entity
loses its last mention by it, and one round of purging is enough. Main statement: after an update that has
written anything, every entity without owner that was not inserted is mentioned.
-/
import CrossIndex.Proofs.Update.Forced
import CrossIndex.Proofs.Update.Idempotent

namespace CrossIndex

namespace Store

/-- A reference is to an entity or lies in its scope, or a relation has it as an end. -/
def PointsAt (s : Store) (id : Int) : Prop :=
  (∃ r ∈ s.references, r.entity = id ∨ r.scope = some id) ∨ ∃ r ∈ s.relations, r.source = id ∨ r.target = id

/-- A purge has been run: it takes away some entities that nobody owns or has inserted and to which nothing
points, and no other row of any table; none like them is left, and a second run would change nothing. -/
structure Purges (before after : Store) : Prop where
  run : after = before.purgeOrphans.bump
  removed : ∀ e ∈ before.entities, e ∉ after.entities →
    e.owner = none ∧ e.dynamic = false ∧ ¬ before.PointsAt e.id
  entities : after.entities.Sublist before.entities
  rest : after = { before with entities := after.entities, generation := before.generation + 1 }
  clean : ∀ e ∈ after.entities, e.owner = none → e.dynamic = false → after.PointsAt e.id
  again : after.purgeOrphans = after

variable {s : Store}

theorem isMentioned_iff {id : Int} : s.isMentioned id = true ↔ s.PointsAt id := by
  simp [isMentioned, PointsAt]

theorem isOrphan_iff {e : EntityRow} :
    s.isOrphan e = true ↔ e.owner = none ∧ e.dynamic = false ∧ ¬ s.PointsAt e.id := by
  rw [← isMentioned_iff]
  simp [isOrphan, and_assoc]

/-- Purging a store in which nothing is an orphan changes nothing. -/
theorem purgeOrphans_eq_self (hs : s.Sound) (h : ∀ e ∈ s.entities, s.isOrphan e = false) : s.purgeOrphans = s := by
  have hall : (s.entities.filter fun e => !s.isOrphan e) = s.entities := by
    rw [List.filter_eq_self]
    intro e he
    rw [h e he]
    rfl
  rw [purgeOrphans_eq hs, hall]

/-- The end of a pass purges the store. Who is an orphan is a matter of references and relations, which stay. -/
theorem Sound.purges (hs : s.Sound) : s.Purges s.closed := by
  have hclosed := closed_eq hs
  have hentities : s.closed.entities = s.entities.filter fun e => !s.isOrphan e := by rw [hclosed]
  have hsame : ∀ e, s.closed.isOrphan e = s.isOrphan e := by
    intro e
    rw [hclosed]
    rfl
  have hnone : ∀ e ∈ s.closed.entities, s.closed.isOrphan e = false := by
    intro e he
    rw [hentities] at he
    rw [hsame]
    simpa using (List.mem_filter.1 he).2
  refine ⟨rfl, fun e he hgone => ?_, ?_, ?_, fun e he howner hdynamic => ?_,
    purgeOrphans_eq_self (closed_sound hs) hnone⟩
  · rw [← isOrphan_iff]
    by_contra hkept
    exact hgone (hentities ▸ List.mem_filter.2 ⟨he, by simpa using hkept⟩)
  · rw [hentities]
    exact List.filter_sublist
  · rw [hentities]
    exact hclosed
  · by_contra hpoints
    have horphan := isOrphan_iff.2 ⟨howner, hdynamic, hpoints⟩
    rw [hnone e he] at horphan
    cases horphan

end Store

namespace Pass

/-- A pass after its last unit has been ingested and the missing ones have been pruned, before it ends. -/
def unfinished (canon : String → String) (src : Source) (plan : Plan) (s : Store) : Pass :=
  plan.missing.foldl prune (ingestAll canon src .nothing plan.offered.length { store := s } plan.offered).1

variable {canon : String → String} {src : Source} {plan : Plan} {s : Store}

theorem unfinished_sound (hs : s.Sound) : (unfinished canon src plan s).store.Sound :=
  foldl_prune_steady (P := Store.Sound) (sound_steady canon).prune _
    (ingestAll_steady (sound_steady canon) src .nothing plan.offered.length plan.offered hs)

theorem run_eq_finish {p : Pass} (h : Pass.run canon src .nothing plan s = (p, none)) :
    p = (unfinished canon src plan s).finish := by
  rw [run_nothing] at h
  split at h
  · cases h
  · rename_i q hq
    rw [unfinished, hq]
    exact (Prod.mk.inj h).1.symm

theorem finish_of_wrote {p : Pass} (h : 0 < p.finish.ingested ∨ 0 < p.finish.pruned) :
    p.finish.store = p.store.closed := by
  unfold finish at h ⊢
  split
  · rfl
  · rename_i hidle
    -- a pass that has written nothing ends with the counts that it has
    rw [if_neg hidle] at h
    simp [wrote] at hidle
    omega

end Pass

namespace Store

variable {canon : String → String} {config : Config} {src : Source} {force : Bool} {s : Store} {m : Summary}

theorem updateSeeded_purges {units : List UnitStamp} (hs : s.Sound)
    (hok : (s.updateSeeded canon config src force units).outcome = .ok m) (hwrote : 0 < m.ingested ∨ 0 < m.pruned) :
    (Pass.unfinished canon src (Plan.make config force s units) s).store.Purges
      (s.updateSeeded canon config src force units).store := by
  rcases hrun : Pass.run canon src .nothing (Plan.make config force s units) s with ⟨p, _ | f⟩
  · rw [updateSeeded_of_run hrun] at hok ⊢
    obtain rfl := Except.ok.inj hok
    obtain rfl := Pass.run_eq_finish hrun
    rw [Pass.finish_of_wrote hwrote]
    exact (Pass.unfinished_sound hs).purges
  · rw [updateSeeded_of_failure hrun] at hok
    cases hok

/-- An update of a reachable store that succeeds and has ingested or pruned a unit ends with a purge of what its
pass has led to: entities that nobody owns, that were not inserted and to which nothing points are removed, no
other row of any table goes or changes, and none of that sort is left. -/
theorem update_purges {Canonical : (String → String) → Prop} {baseline : Option Baseline} (hs : s.Reachable Canonical)
    (hb : ∀ saved, baseline = some (.saved saved) → saved.Reachable Canonical)
    (hok : (s.update canon config src force baseline).outcome = .ok m) (hwrote : 0 < m.ingested ∨ 0 < m.pruned) :
    ∃ seeded copied reports units, s.seed baseline = .ok (seeded, copied, reports) ∧ src.units = .ok units ∧
      (Pass.unfinished canon src (Plan.make config force seeded units) seeded).store.Purges
        (s.update canon config src force baseline).store := by
  cases hseed : s.seed baseline with
  | error f =>
    simp [update_of_seed_error hseed] at hok
  | ok result =>
    obtain ⟨seeded, copied, reports⟩ := result
    have hsound : seeded.Sound :=
      seed_steady (P := Sound) markBaseline_sound hs.sound (fun saved h => (hb saved h).sound) hseed
    cases hunits : src.units with
    | error f =>
      simp [update_of_units_error hseed hunits] at hok
    | ok units =>
      refine ⟨seeded, copied, reports, units, rfl, rfl, ?_⟩
      simp only [update_eq, hseed, hunits] at hok ⊢
      cases hout : (seeded.updateSeeded canon config src force units).outcome with
      | error f =>
        rw [hout] at hok
        cases hok
      | ok n =>
        rw [hout] at hok
        obtain rfl := Except.ok.inj hok
        exact updateSeeded_purges hsound hout hwrote

end Store

namespace Sample

/-- A unit that refers to some entities that are declared elsewhere. -/
def borrower (stamp : Int) (keys : List EntityKey) : UnitRecord where
  indexFile := "c.ali"
  stamp := stamp
  sourceFiles := ["c.adb"]
  references := keys.map fun key => ⟨key, ⟨"c.adb", 2, 5⟩, 'r', none⟩

/-- The unit refers to two stubs. -/
def twoStubs : Store :=
  (Store.fresh.update Path.normalize {}
    (MemorySource.ofUnits [borrower 1 [declared.key, predefined.key]]).toSource false none).store

/-- A newer version of the unit refers to one of them. -/
def oneMention : Source :=
  (MemorySource.ofUnits [borrower 2 [declared.key]]).toSource

end Sample

open Sample Store in
/-- The stub that the newer version no longer mentions goes with the purge. -/
theorem oneMention_purges :
    (twoStubs.update Path.normalize {} oneMention false none).outcome = .ok { offered := 1, ingested := 1 } ∧
      twoStubs.entities.map EntityRow.name = ["Count", "Integer"] ∧
      (twoStubs.update Path.normalize {} oneMention false none).store.entities.map EntityRow.name = ["Count"] ∧
      ∃ seeded copied reports units, twoStubs.seed none = .ok (seeded, copied, reports) ∧
        oneMention.units = .ok units ∧
        (Pass.unfinished Path.normalize oneMention (Plan.make {} false seeded units) seeded).store.Purges
          (twoStubs.update Path.normalize {} oneMention false none).store := by
  have hreachable : twoStubs.Reachable (· = Path.normalize) := .update .fresh rfl fun _ h => by cases h
  have hok : (twoStubs.update Path.normalize {} oneMention false none).outcome =
      .ok { offered := 1, ingested := 1 } := by decide +kernel
  exact ⟨hok, by decide +kernel, by decide +kernel,
    update_purges hreachable (fun _ h => by cases h) hok (.inl (by decide))⟩

end CrossIndex
