/-
Seeding from a baseline. A store that is seeded holds the rows of the baseline, with every unit marked; the
marks are read for nothing but pruning, and there they hold everything back. Main statement: an update that
seeds an empty store from a baseline leaves what an update of the baseline itself leaves that prunes nothing,
up to the marks. So do updates of databases, with the baseline in a file.
-/
import CrossIndex.Proofs.Store.Marks
import CrossIndex.Proofs.Update.Bookkeeping

namespace CrossIndex

/-! ## The plan -/

namespace Plan

variable {config config' : Config} {force : Bool} {s : Store} {units : List UnitStamp}

theorem isUpToDate_brought (u : UnitStamp) (row : Option UnitRow) :
    u.isUpToDate (row.map UnitRow.brought) = u.isUpToDate row := by
  cases row <;> rfl

theorem offered_markBaseline (config config' : Config) (force : Bool) (s : Store) (units : List UnitStamp) :
    (make config force s.markBaseline units).offered = (make config' force s units).offered := by
  simp only [make, Store.unit?_markBaseline, isUpToDate_brought]

/-- No unit of a store that was just seeded is a local one. -/
theorem missing_markBaseline (config : Config) (force : Bool) (s : Store) (units : List UnitStamp) :
    (make config force s.markBaseline units).missing = [] := by
  refine List.eq_nil_iff_forall_not_mem.2 fun file hfile => ?_
  obtain ⟨-, ⟨row, hrow, hlocal, -⟩, -⟩ := mem_missing_make hfile
  obtain ⟨r, -, rfl⟩ := List.mem_map.1 hrow
  cases hlocal

theorem missing_of_keeping (h : config.pruneMissingUnits = false) : (make config force s units).missing = [] := by
  simp [make, h]

end Plan

/-! ## The pass -/

namespace Pass

variable {canon : String → String} {src : Source}

/-- Two passes that have done the same, on stores that are alike. -/
structure Alike (p q : Pass) : Prop where
  store : p.store.Alike q.store
  ingested : p.ingested = q.ingested
  failed : p.failed = q.failed
  pruned : p.pruned = q.pruned
  reports : p.reports = q.reports
  progress : p.progress = q.progress

theorem after_alike (canon : String → String) (src : Source) {s t : Store} (h : s.Alike t) (total : Nat)
    (offered : List (UnitStamp × Bool)) :
    (Pass.after canon src total { store := s } offered).Alike (Pass.after canon src total { store := t } offered) :=
  ⟨h.replaceAll _, rfl, rfl, rfl, rfl, rfl⟩

theorem Alike.finish {p q : Pass} (h : p.Alike q) : p.finish.Alike q.finish := by
  have hwrote : p.wrote = q.wrote := by simp only [wrote, h.ingested, h.pruned]
  unfold Pass.finish
  rw [hwrote]
  split
  · exact ⟨h.store.purge, h.ingested, h.failed, h.pruned, h.reports, h.progress⟩
  · exact h

/-- A run with nothing to prune. -/
theorem run_of_keeping {plan : Plan} {s : Store} (hserves : src.Serves plan.offered) (hmissing : plan.missing = []) :
    Pass.run canon src .nothing plan s =
      ((Pass.after canon src plan.offered.length { store := s } plan.offered).finish, none) := by
  rw [run_of_serves hserves, hmissing]
  rfl

end Pass

/-! ## The update -/

/-- An update `a` that was seeded against an update `b` of the baseline: the same outcome but for the copy, and
stores that are alike. -/
structure UpdateResult.SeededLike (a b : UpdateResult) : Prop where
  outcome : SameOutcome a.outcome (b.outcome.map fun m => { m with baselineCopied := true })
  store : a.store.Alike b.store
  reports : a.reports = b.reports
  progress : a.progress = b.progress

namespace Store

variable {canon : String → String} {config inPlace : Config} {src : Source} {force : Bool} {s saved : Store}

/-- The passes over a marked store and over the store itself, which prunes nothing. -/
theorem updateSeeded_markBaseline {units : List UnitStamp} (config : Config)
    (hkeeps : inPlace.pruneMissingUnits = false)
    (h : StorageHolds (saved.updateSeeded canon inPlace src force units).outcome) :
    SameOutcome (saved.markBaseline.updateSeeded canon config src force units).outcome
        (saved.updateSeeded canon inPlace src force units).outcome ∧
      (saved.markBaseline.updateSeeded canon config src force units).store.Alike
        (saved.updateSeeded canon inPlace src force units).store ∧
      (saved.markBaseline.updateSeeded canon config src force units).reports =
        (saved.updateSeeded canon inPlace src force units).reports ∧
      (saved.markBaseline.updateSeeded canon config src force units).progress =
        (saved.updateSeeded canon inPlace src force units).progress := by
  have hoffered := Plan.offered_markBaseline config inPlace force saved units
  have hserves := (run_of_storageHolds h).1
  have hseeded : Pass.run canon src .nothing (Plan.make config force saved.markBaseline units) saved.markBaseline = _ :=
    Pass.run_of_keeping (hoffered.symm ▸ hserves) (Plan.missing_markBaseline config force saved units)
  have hinPlace : Pass.run canon src .nothing (Plan.make inPlace force saved units) saved = _ :=
    Pass.run_of_keeping hserves (Plan.missing_of_keeping hkeeps)
  rw [updateSeeded_of_run hseeded, updateSeeded_of_run hinPlace, hoffered]
  have halike := (Pass.after_alike canon src saved.markBaseline_alike
    (Plan.make inPlace force saved units).offered.length (Plan.make inPlace force saved units).offered).finish
  refine ⟨?_, halike.store, halike.reports, halike.progress⟩
  simp only [SameOutcome, Except.map, Summary.unstaged, halike.ingested, halike.failed, halike.pruned,
    Plan.staleCount, hoffered]

theorem seed_saved (hempty : s.isEmpty = true) (saved : Store) :
    s.seed (some (.saved saved)) = .ok (saved.markBaseline, true, []) := by
  simp [seed, hempty]

theorem update_seededLike (config : Config) (hempty : s.isEmpty = true) (hkeeps : inPlace.pruneMissingUnits = false)
    (h : StorageHolds (saved.update canon inPlace src force none).outcome) :
    (s.update canon config src force (some (.saved saved))).SeededLike (saved.update canon inPlace src force none) := by
  rw [update_of_seed (seed_saved hempty saved)]
  have hself : ∀ s : Store, s.seed none = .ok (s, false, []) := fun _ => rfl
  simp only [Store.update_eq, hself] at h ⊢
  cases hunits : src.units with
  | error f => exact ⟨rfl, saved.markBaseline_alike, rfl, rfl⟩
  | ok units =>
    simp only [hunits, List.nil_append] at h ⊢
    obtain ⟨houtcome, hstore, hreports, hprogress⟩ :=
      updateSeeded_markBaseline config hkeeps (storageHolds_map.1 h)
    refine ⟨?_, hstore, hreports, hprogress⟩
    rcases houtcome.cases with ⟨f, h₁, h₂⟩ | ⟨m, n, h₁, h₂, hmn⟩
    · rw [h₁, h₂]
      rfl
    · rw [h₁, h₂]
      show Except.ok _ = Except.ok _
      exact congrArg (fun x : Summary => Except.ok { x with baselineCopied := true }) hmn

end Store

/-! ## Databases -/

namespace Connection

variable {c : Connection} {t : FileTree}

theorem file?_of_read {found : Option Store} (h : c.read t = .ok found) : ∃ f, t.file? c.file = some f := by
  unfold read at h
  cases hf : t.file? c.file with
  | none => simp [hf] at h
  | some f => exact ⟨f, rfl⟩

theorem node?_erase (t : FileTree) {spot : NodePath} (h : spot ≠ []) : (t.erase spot).node? spot = none := by
  have hlookup : (t.nodes.filter fun entry => entry.1 != spot).lookup spot = none := by
    rw [List.lookup_eq_none_iff]
    intro entry hentry
    have hne : entry.1 ≠ spot := by simpa using (List.mem_filter.1 hentry).2
    exact bne_iff_ne.2 hne.symm
  unfold FileTree.node? FileTree.erase
  rw [if_neg (by simpa using h)]
  exact hlookup

theorem file?_setFile {id : FileId} {f : File} (h : t.file? id = some f) (f' : File) :
    (t.setFile id f').file? id = some f' := by
  obtain ⟨hid, -⟩ := Array.getElem?_eq_some_iff.1 h
  simp [FileTree.file?, FileTree.setFile, hid]

/-- What is written is read back. -/
theorem read_set {found : Option Store} (h : c.read t = .ok found) (s : Store) :
    c.read (c.set t (.store s)) = .ok (some s) := by
  obtain ⟨f, hf⟩ := file?_of_read h
  have hfile := file?_setFile hf ⟨.store s, 0⟩
  unfold read set
  cases hplace : c.place with
  | none => simp [hfile]
  | some spot =>
    have hjournal : journalBlocks ((t.setFile c.file ⟨.store s, 0⟩).erase (journalOf spot)) spot = false := by
      unfold journalBlocks
      rw [node?_erase _ (by simp [journalOf])]
    have hkept : ((t.setFile c.file ⟨.store s, 0⟩).erase (journalOf spot)).file? c.file = some ⟨.store s, 0⟩ := hfile
    simp only [hkept, Option.any_some, hjournal, Bool.false_eq_true, if_false]

end Connection

namespace Database

variable {db : Database} {t : FileTree} {src : Source} {options : UpdateOptions} {s : Store}

/-- What an update of a database has left, with the store read back from the tree. -/
def left (db : Database) (done : UpdateOutcome × FileTree) : Except Failure UpdateResult :=
  (db.store done.2).map fun s => ⟨done.1.outcome, s, done.1.reports, done.1.progress⟩

theorem store_eq_ok : db.store t = .ok s ↔ db.connection.read t = .ok (some s) := by
  unfold store
  cases db.connection.read t with
  | error f => exact ⟨nofun, nofun⟩
  | ok found =>
    cases found with
    | none => exact ⟨nofun, nofun⟩
    | some s' => exact ⟨fun h => by cases h; rfl, fun h => by cases h; rfl⟩

/-- Without an output file an update ends as it does on the store, which takes the place of the old one. -/
theorem update_eq {others : List Connection} (hs : db.store t = .ok s) (houtput : options.output = none) :
    db.update t others src options =
      (⟨(db.run t src options s).outcome, (db.run t src options s).reports, (db.run t src options s).progress⟩,
        if (db.run t src options s).store = s then t
        else db.connection.set t (.store (db.run t src options s).store)) := by
  unfold update
  simp only [hs, houtput]
  cases (db.run t src options s).outcome <;> rfl

theorem left_update {others : List Connection} (hs : db.store t = .ok s) (houtput : options.output = none) :
    db.left (db.update t others src options) = .ok (db.run t src options s) := by
  let result := db.run t src options s
  have hstore : db.store (if result.store = s then t else db.connection.set t (.store result.store)) =
      .ok result.store := by
    split
    · rename_i hsame
      rw [hsame, hs]
    · exact store_eq_ok.2 (Connection.read_set (store_eq_ok.1 hs) _)
  rw [left, update_eq hs houtput, hstore]
  rfl

/-- With a handle that can be written nothing fails with the storage but the source. -/
theorem run_of_writable (h : db.connection.isWritable t = true) : db.run t src options s =
    s.update t.canon db.config src options.force (options.baseline.map (db.baselineAt t)) := by
  unfold run storage
  rw [if_pos h]
  rfl

theorem run_of_storageHolds {force : Bool} (h : StorageHolds (db.run t src { force } s).outcome) :
    db.run t src { force } s = s.update t.canon db.config src force none :=
  Store.updateOn_of_holds h

theorem run_of_baseline {force : Bool} {path : String} {saved : Store}
    (hbaseline : db.baselineAt t path = .saved saved)
    (h : StorageHolds (db.run t src { force, baseline := some path } s).outcome) :
    db.run t src { force, baseline := some path } s =
      s.update t.canon db.config src force (some (.saved saved)) := by
  have hrun : db.run t src { force, baseline := some path } s =
      s.updateOn (db.storage t) t.canon db.config src force (some (.saved saved)) := by
    rw [← hbaseline]
    rfl
  rw [hrun] at h ⊢
  exact Store.updateOn_of_holds h

end Database

/-- An update that seeds an empty store from a baseline against an update of the baseline that prunes nothing,
for stores and for databases, unless the storage fails. -/
theorem baseline_updated_in_place (src : Source) (force : Bool) (saved : Store) :
    (∀ (canon : String → String) (config inPlace : Config) (s : Store), s.isEmpty = true →
      inPlace.pruneMissingUnits = false → StorageHolds (saved.update canon inPlace src force none).outcome →
      (s.update canon config src force (some (.saved saved))).SeededLike (saved.update canon inPlace src force none)) ∧
    ∀ (t : FileTree) (others : List Connection) (db own : Database) (path : String) (s : Store),
      db.store t = .ok s → s.isEmpty = true → db.baselineAt t path = .saved saved →
      own.store t = .ok saved → own.config.pruneMissingUnits = false →
      StorageHolds (db.update t others src { force, baseline := some path }).1.outcome →
      StorageHolds (own.update t others src { force }).1.outcome →
      ∃ a b, db.left (db.update t others src { force, baseline := some path }) = .ok a ∧
        own.left (own.update t others src { force }) = .ok b ∧ a.SeededLike b := by
  refine ⟨fun canon config inPlace s hempty hkeeps h => Store.update_seededLike config hempty hkeeps h, ?_⟩
  intro t others db own path s hs hempty hbaseline hown hkeeps hdb hholds
  refine ⟨_, _, Database.left_update hs rfl, Database.left_update hown rfl, ?_⟩
  rw [Database.update_eq hs rfl] at hdb
  rw [Database.update_eq hown rfl] at hholds
  rw [Database.run_of_baseline hbaseline hdb]
  have hinPlace := Database.run_of_storageHolds hholds
  rw [hinPlace] at hholds ⊢
  exact Store.update_seededLike db.config hempty hkeeps hholds

namespace Sample

/-- A tree with the file of a fresh store, to which no place leads, and a baseline. -/
def seedTree : FileTree :=
  ⟨[(["base.db".toList], .file 1)], #[⟨.store Store.fresh, 0⟩, ⟨.store saved, 0⟩], []⟩

/-- A handle to the baseline itself, with settings that keep missing units. -/
def keeper : Database :=
  ⟨some "/base.db", { file := 1, place := some ["base.db".toList] }, { pruneMissingUnits := false }⟩

theorem seedTree_baseline : handle.baselineAt seedTree "/base.db" = .saved saved := by
  have hnames : Path.segments "/base.db".toList = [[], "base.db".toList] := by decide
  -- to follow names is no structural recursion, so its equations are applied before anything is evaluated
  have hresolve : seedTree.resolve "/base.db" = .ok ["base.db".toList] := by
    unfold FileTree.resolve FileTree.followPath
    rw [hnames]
    simp only [FileTree.follow]
    decide +kernel
  have hplace : Connection.place? seedTree "/base.db" = some ["base.db".toList] := by
    unfold Connection.place?
    rw [hnames]
    simp only [Connection.follow]
    decide +kernel
  have hfile : (seedTree.lookupFile "/base.db").isNone = false := by
    unfold FileTree.lookupFile FileTree.lookup
    rw [hresolve]
    decide +kernel
  unfold Database.baselineAt Database.baselineStore Connection.toAddress
  rw [hfile]
  simp only [hplace]
  decide +kernel

end Sample

open Sample in
/-- The fresh store gets the second unit from the baseline and the first one from the source, as the baseline
does when it is updated itself. -/
theorem seedTree_updated_in_place :
    (Store.fresh.update Path.normalize {} newer false (some (.saved saved))).SeededLike
        (saved.update Path.normalize { pruneMissingUnits := false } newer false none) ∧
      ∃ a b, handle.left (handle.update seedTree [] newer { baseline := some "/base.db" }) = .ok a ∧
        keeper.left (keeper.update seedTree [] newer {}) = .ok b ∧ a.SeededLike b := by
  obtain ⟨hstores, hdatabases⟩ := baseline_updated_in_place newer false saved
  have hhandle : handle.store seedTree = .ok Store.fresh := by decide +kernel
  have hkeeper : keeper.store seedTree = .ok saved := by decide +kernel
  have hunits : newer.units = .ok [⟨"a.ali", 2, none⟩] := by decide +kernel
  have hsettles : ∀ (s : Store) (config : Config),
      StorageHolds (s.update seedTree.canon config newer false none).outcome := by
    intro s config
    rw [show s.update seedTree.canon config newer false none = _ from update_settled false newer_faithful hunits]
    exact nofun
  have hholds : StorageHolds (keeper.update seedTree [] newer {}).1.outcome := by
    have hwritable : keeper.connection.isWritable seedTree = true := by decide +kernel
    have hrun : keeper.run seedTree newer {} saved = saved.update seedTree.canon keeper.config newer false none :=
      Database.run_of_writable hwritable
    rw [Database.update_eq hkeeper rfl, hrun]
    exact hsettles saved keeper.config
  have hseeds : StorageHolds (handle.update seedTree [] newer { baseline := some "/base.db" }).1.outcome := by
    have hwritable : handle.connection.isWritable seedTree = true := by decide +kernel
    have hrun : handle.run seedTree newer { baseline := some "/base.db" } Store.fresh =
        Store.fresh.update seedTree.canon handle.config newer false (some (.saved saved)) := by
      rw [Database.run_of_writable hwritable, ← seedTree_baseline]
      rfl
    rw [Database.update_eq hhandle rfl, hrun, update_of_seed (Store.seed_saved rfl saved)]
    intro f hf
    have hok := hsettles saved.markBaseline handle.config f
    cases houtcome : (saved.markBaseline.update seedTree.canon handle.config newer false none).outcome with
    | error e => exact hok (by rw [houtcome]; simpa [houtcome, Except.map] using hf)
    | ok m => simp [houtcome, Except.map] at hf
  refine ⟨hstores Path.normalize {} _ Store.fresh rfl rfl (by decide +kernel), ?_⟩
  exact hdatabases seedTree [] handle keeper "/base.db" Store.fresh hhandle rfl seedTree_baseline hkeeper rfl hseeds
    hholds

end CrossIndex
