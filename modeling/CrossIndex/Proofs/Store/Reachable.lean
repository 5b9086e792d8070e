/-
Reachable stores: what updates, insertions of entities and registrations of kinds make of the fresh
store, in any number and order. An update may fail, run on a copy or start from a baseline that was
saved from a reachable store; a copy of a store is that store. A property that the steps of an update
keep is kept by the update (`Steady`). Main statement: every store that is met on the way, and so every
reachable one, is sound.
-/
import CrossIndex.Proofs.Store.Draft
import CrossIndex.Proofs.Update.Storage

namespace CrossIndex

/-- A property of stores that each step of an update keeps. -/
structure Steady (canon : String → String) (P : Store → Prop) : Prop where
  write : ∀ {s t : Store} {u : UnitRecord}, P s → s.writeUnit canon u = .ok t → P t
  prune : ∀ {s : Store}, P s → ∀ unit, P (s.deleteUnit unit)
  purge : ∀ {s : Store}, P s → P s.purgeOrphans
  bump : ∀ {s : Store}, P s → P s.bump
  mark : ∀ {s : Store}, P s → P s.markBaseline

variable {canon : String → String} {P : Store → Prop}

/-! ## From the steps of an update to the update -/

theorem Store.loadInto_steady (h : Steady canon P) {src : Source} {fault : Option Fault} {v : UnitStamp} {s : Store}
    (hs : P s) : P (s.loadInto canon src fault v).2 := by
  cases hout : (s.loadInto canon src fault v).1 with
  | ok _ =>
    obtain ⟨-, r, -, hwrite⟩ := loadInto_of_ok hout
    exact h.write hs hwrite
  | error f =>
    rw [loadInto_of_error hout]
    exact hs

namespace Pass

theorem ingest_steady (h : Steady canon P) (src : Source) (fault : Option Fault) (u : UnitStamp) {p : Pass}
    (hp : P p.store) : P (p.ingest canon src fault u).1.store := by
  have hload : P (p.store.loadInto canon src fault u).2 := Store.loadInto_steady h hp
  unfold ingest
  split
  · rename_i store hstore
    rw [hstore] at hload
    exact hload
  · rename_i f store hstore
    rw [hstore] at hload
    split <;> exact hload

theorem ingestAll_steady (h : Steady canon P) (src : Source) (faults : Faults) (total : Nat) :
    ∀ (offered : List (UnitStamp × Bool)) {p : Pass}, P p.store →
      P (p.ingestAll canon src faults total offered).1.store
  | [], _, hp => hp
  | (u, stale) :: more, p, hp => by
    have hstep : P (p.ingest canon src (faults.unit p.progress.length) u).1.store := ingest_steady h src _ u hp
    unfold ingestAll
    split
    · split
      · rename_i q f hq
        rw [hq] at hstep
        exact hstep
      · rename_i q hq
        rw [hq] at hstep
        exact ingestAll_steady h src faults total more (p := q.tick total) hstep
    · exact ingestAll_steady h src faults total more (p := p.tick total) hp

theorem prune_steady (h : ∀ {s : Store}, P s → ∀ unit, P (s.deleteUnit unit)) (file : String) {p : Pass}
    (hp : P p.store) : P (p.prune file).store := by
  unfold prune
  split
  · exact h hp _
  · exact hp

theorem foldl_prune_steady (h : ∀ {s : Store}, P s → ∀ unit, P (s.deleteUnit unit)) : ∀ (missing : List String)
    {p : Pass}, P p.store → P (missing.foldl prune p).store
  | [], _, hp => hp
  | file :: missing, _, hp => foldl_prune_steady h missing (prune_steady (P := P) h file hp)

theorem pruneAll_steady (h : ∀ {s : Store}, P s → ∀ unit, P (s.deleteUnit unit)) (faults : Faults) :
    ∀ (missing : List String) {p : Pass}, P p.store → P (p.pruneAll faults missing).1.store
  | [], _, hp => hp
  | file :: missing, p, hp => by
    unfold pruneAll
    split
    · exact hp
    · exact pruneAll_steady h faults missing (prune_steady (P := P) h file hp)

theorem conclude_steady (h : Steady canon P) (faults : Faults) {p : Pass} (hp : P p.store) :
    P (p.conclude faults).1.store := by
  unfold conclude
  split
  · exact hp
  · exact h.purge hp
  · unfold finish
    split
    · exact h.bump (h.purge hp)
    · exact hp

theorem run_steady (h : Steady canon P) (src : Source) (faults : Faults) (plan : Plan) {s : Store} (hs : P s) :
    P (Pass.run canon src faults plan s).1.store := by
  have hall := ingestAll_steady h src faults plan.offered.length plan.offered (p := { store := s }) hs
  unfold run
  split
  · rename_i p f hp
    rw [hp] at hall
    exact hall
  · rename_i p hp
    rw [hp] at hall
    have hpruned := pruneAll_steady (P := P) h.prune faults plan.missing hall
    split
    · rename_i q f hq
      rw [hq] at hpruned
      exact hpruned
    · rename_i q hq
      rw [hq] at hpruned
      exact conclude_steady h faults hpruned

end Pass

namespace Store

theorem updateSeededOn_steady (h : Steady canon P) (storage : Storage) (config : Config) (src : Source) (force : Bool)
    (units : List UnitStamp) {s : Store} (hs : P s) :
    P (s.updateSeededOn storage canon config src force units).store := by
  have hrun (faults : Faults) := Pass.run_steady h src faults (Plan.make config force s units) hs
  unfold updateSeededOn
  dsimp only
  split
  · exact hs
  · split
    · rename_i p f hp
      have hp' := congrArg (fun r => r.1.store) hp
      have hstore : P p.store := hp' ▸ hrun _
      dsimp only
      split
      · exact hs
      · exact hstore
    · rename_i p hp
      have hp' := congrArg (fun r => r.1.store) hp
      have hstore : P p.store := hp' ▸ hrun _
      split
      · exact hs
      · dsimp only
        split
        · exact hs
        · exact hstore

theorem seed_steady (h : ∀ {s : Store}, P s → P s.markBaseline) {baseline : Option Baseline} {s t : Store}
    {copied : Bool} {reports : List String} (hs : P s) (hb : ∀ saved, baseline = some (.saved saved) → P saved)
    (ht : s.seed baseline = .ok (t, copied, reports)) : P t := by
  unfold seed at ht
  split at ht
  · cases ht
    exact hs
  · split at ht
    · cases ht
      exact hs
    · split at ht <;> cases ht
      · exact hs
      · exact hs
      · exact h (hb _ rfl)

/-- A property that the steps of an update keep is kept by the update, however it ends and wherever the
storage fails. -/
theorem updateOn_steady (h : Steady canon P) (storage : Storage) (config : Config) (src : Source) (force : Bool)
    {baseline : Option Baseline} {s : Store} (hs : P s) (hb : ∀ saved, baseline = some (.saved saved) → P saved) :
    P (s.updateOn storage canon config src force baseline).store := by
  unfold updateOn
  split
  · exact hs
  · rename_i t copied reports ht
    have htp := seed_steady (P := P) h.mark hs hb (seed_of_seedOn ht)
    split
    · exact htp
    · exact updateSeededOn_steady h storage config src force _ htp

theorem update_steady (h : Steady canon P) (config : Config) (src : Source) (force : Bool)
    {baseline : Option Baseline} {s : Store} (hs : P s) (hb : ∀ saved, baseline = some (.saved saved) → P saved) :
    P (s.update canon config src force baseline).store :=
  updateOn_steady h .sound config src force hs hb

/-! ## Reachable stores -/

/-- The stores that a database can have, on a storage that may fail anywhere. Paths are stored by functions
of a given sort, each update or insertion by one of its own. -/
inductive Reachable (Canonical : (String → String) → Prop) : Store → Prop
  | fresh : Reachable Canonical Store.fresh
  | update {s : Store} {storage : Storage} {canon : String → String} {config : Config} {src : Source}
      {force : Bool} {baseline : Option Baseline} : Reachable Canonical s → Canonical canon →
      (∀ saved, baseline = some (.saved saved) → Reachable Canonical saved) →
      Reachable Canonical (s.updateOn storage canon config src force baseline).store
  | insert {s t : Store} {canon : String → String} {r : EntityRecord} {e : Entity} : Reachable Canonical s →
      Canonical canon → s.insertEntity canon r = .ok (e, t) → Reachable Canonical t
  | register {s : Store} {kind : ReferenceKind} : Reachable Canonical s → Reachable Canonical (s.registerKind kind)

theorem markBaseline_sound {s : Store} (hs : s.Sound) : s.markBaseline.Sound := by
  have hg : s.Grows s.markBaseline :=
    ⟨fun u hu => ⟨_, List.mem_map.2 ⟨u, hu, rfl⟩, rfl, rfl⟩, fun _ h => h, fun e he => ⟨e, he, rfl, rfl, rfl⟩⟩
  refine hs.grow hg ⟨?_, ?_, hs.fileIds, hs.paths, hs.entityIds, hs.entityKeys⟩ (fun _ h => .inl h)
    (fun _ h => .inl h) (fun _ h => .inl h) (fun _ h => .inl h)
  · show ((s.units.map fun u => { u with fromBaseline := true }).map UnitRow.id).Nodup
    rw [List.map_map]
    exact hs.unitIds
  · show ((s.units.map fun u => { u with fromBaseline := true }).map UnitRow.indexFile).Nodup
    rw [List.map_map]
    exact hs.indexFiles

/-- The stores that are met at any moment, also between two steps of an update. -/
inductive Met (Canonical : (String → String) → Prop) : Store → Prop
  | fresh : Met Canonical Store.fresh
  | write {s t : Store} {canon : String → String} {u : UnitRecord} : Met Canonical s → Canonical canon →
      s.writeUnit canon u = .ok t → Met Canonical t
  | prune {s : Store} (unit : Int) : Met Canonical s → Met Canonical (s.deleteUnit unit)
  | purge {s : Store} : Met Canonical s → Met Canonical s.purgeOrphans
  | bump {s : Store} : Met Canonical s → Met Canonical s.bump
  | mark {s : Store} : Met Canonical s → Met Canonical s.markBaseline
  | insert {s t : Store} {canon : String → String} {r : EntityRecord} {e : Entity} : Met Canonical s → Canonical canon →
      s.insertEntity canon r = .ok (e, t) → Met Canonical t
  | register {s : Store} (kind : ReferenceKind) : Met Canonical s → Met Canonical (s.registerKind kind)

theorem met_steady {Canonical : (String → String) → Prop} (hc : Canonical canon) : Steady canon (Met Canonical) where
  write hs h := .write hs hc h
  prune hs unit := .prune unit hs
  purge hs := .purge hs
  bump hs := .bump hs
  mark hs := .mark hs

/-- A reachable store is met: an update goes through its steps one by one. -/
theorem Reachable.met {Canonical : (String → String) → Prop} {s : Store} (h : Reachable Canonical s) :
    Met Canonical s := by
  induction h with
  | fresh => exact .fresh
  | update _ hc _ hs hb => exact updateOn_steady (met_steady hc) _ _ _ _ hs hb
  | insert _ hc h hs => exact .insert hs hc h
  | register _ hs => exact .register _ hs

/-- At every moment the store is sound. -/
theorem Met.sound {Canonical : (String → String) → Prop} {s : Store} (h : Met Canonical s) : s.Sound := by
  induction h with
  | fresh => exact fresh_sound
  | write _ _ h hs => exact writeUnit_sound hs h
  | prune unit _ hs => exact deleteUnit_sound hs unit
  | purge _ hs => exact purgeOrphans_sound hs
  | bump _ hs => exact bump_sound hs
  | mark _ hs => exact markBaseline_sound hs
  | insert _ _ h hs => exact insertEntity_sound hs h
  | register kind _ hs => exact registerKind_sound hs kind

theorem Reachable.sound {Canonical : (String → String) → Prop} {s : Store} (h : Reachable Canonical s) : s.Sound :=
  h.met.sound

end Store

end CrossIndex
