/-
Entities that are inserted outside of any unit, and what becomes of them when no unit declares them. A new
one stays through every run of updates and insertions. An insertion that finds a stub leaves it a stub,
though, and a stub goes when nothing mentions it any more: an update that leaves all units blank loses it.
-/
import CrossIndex.Proofs.Update.Bookkeeping
import CrossIndex.Proofs.Update.Generation
import CrossIndex.Proofs.Update.Standing

namespace CrossIndex

/-- A request brings in a unit that declares an entity. -/
def Request.Declares (s : Store) (k : EntityKey) : Request → Prop
  | update canon config src force => ∃ u, s.Ingests config src force u ∧ u.Declares canon k
  | insert _ _ => False

namespace Store

variable {canon : String → String} {config : Config} {src : Source} {force : Bool} {s t : Store} {k : EntityKey}

/-! ## Databases into which no unit with the declaration has come -/

/-- The stores that a database can have into which no unit that declares an entity has ever been ingested,
directly or by way of a baseline. -/
inductive Undeclared (k : EntityKey) : Store → Prop
  | fresh : Undeclared k Store.fresh
  | update {s : Store} {canon : String → String} {config : Config} {src : Source} {force : Bool}
      {baseline : Option Baseline} : Undeclared k s →
      (∀ saved, baseline = some (.saved saved) → Undeclared k saved) →
      (∀ seeded copied reports, s.seed baseline = .ok (seeded, copied, reports) →
        ∀ u, seeded.Ingests config src force u → ¬ u.Declares canon k) →
      Undeclared k (s.update canon config src force baseline).store
  | insert {s t : Store} {canon : String → String} {r : EntityRecord} {e : Entity} : Undeclared k s →
      s.insertEntity canon r = .ok (e, t) → Undeclared k t
  | register {s : Store} {kind : ReferenceKind} : Undeclared k s → Undeclared k (s.registerKind kind)

namespace Undeclared

theorem reachable (h : s.Undeclared k) : s.Reachable fun _ => True := by
  induction h with
  | fresh => exact .fresh
  | update _ _ _ hs hb => exact .update hs trivial hb
  | insert _ h hs => exact .insert hs trivial h
  | register _ hs => exact .register hs

theorem sound (h : s.Undeclared k) : s.Sound :=
  h.reachable.sound

/-- Nobody owns the entity in such a store. -/
theorem unowned (h : s.Undeclared k) : ∀ e, s.row? k = some e → e.owner = none := by
  induction h with
  | fresh =>
    intro e he
    cases he
  | @update s canon config src force baseline hs hb hforeign ih ihb =>
    cases hseed : s.seed baseline with
    | error f =>
      rw [update_of_seed_error hseed]
      exact ih
    | ok result =>
      obtain ⟨seeded, copied, reports⟩ := result
      obtain ⟨hsound, hseeded⟩ : seeded.Sound ∧ ∀ e, seeded.row? k = some e → e.owner = none :=
        seed_steady (P := fun t => t.Sound ∧ ∀ e, t.row? k = some e → e.owner = none)
          (fun ht => ⟨markBaseline_sound ht.1, ht.2⟩) ⟨hs.sound, ih⟩
          (fun saved h => ⟨(hb saved h).sound, ihb saved h⟩) hseed
      rw [update_of_seed hseed]
      exact (update_undisturbed hsound (hforeign seeded copied reports hseed)).unowned hseeded
  | @insert s t canon r e hs h ih =>
    intro row hrow
    obtain ⟨⟨row', hrow', -, hcase⟩, hother, -⟩ := insertEntity_spec hs.sound h
    by_cases hk : k = r.key.stored canon
    · subst hk
      obtain rfl := Option.some.inj (hrow'.symm.trans hrow)
      rcases hcase with hsame | ⟨-, howner, -⟩
      · exact ih row' hsame
      · exact howner
    · exact ih row ((hother k hk).symm.trans hrow)
  | @register s kind _ ih =>
    have hrow : (s.registerKind kind).row? k = s.row? k := by
      unfold registerKind
      split <;> rfl
    rwa [hrow]

end Undeclared

/-! ## Runs of requests -/

/-- An update brings in no declaration of an entity if no unit that is offered declares it. -/
theorem not_declares_of_load (h : ∀ units v u, src.units = .ok units → v ∈ units → src.load v = .ok u →
    ¬ u.Declares canon k) (s : Store) : ¬ (Request.update canon config src force).Declares s k := by
  rintro ⟨u, hu, hk⟩
  obtain ⟨units, v, hunits, hv, hload⟩ := hu.loaded
  exact h units v u hunits hv hload hk

theorem apply_sound (hs : s.Sound) (q : Request) : (q.apply s).Sound := by
  cases q with
  | update canon config src force => exact update_steady (sound_steady canon) config src force hs fun _ h => by cases h
  | insert canon r =>
    cases h : s.insertEntity canon r with
    | error f => simpa [Request.apply, h] using hs
    | ok done => simpa [Request.apply, h] using insertEntity_sound hs h

/-- One request: an inserted entity stays unless a unit that declares it comes in. -/
theorem apply_hasInserted (hs : s.Sound) {q : Request} (hq : ¬ q.Declares s k) {id : Int} (h : s.HasInserted id k) :
    (q.apply s).HasInserted id k := by
  cases q with
  | update canon config src force =>
    exact (update_undisturbed hs fun u hu hk => hq ⟨u, hu, hk⟩).hasInserted h
  | insert canon r =>
    cases hinsert : s.insertEntity canon r with
    | error f => simpa [Request.apply, hinsert] using h
    | ok done =>
      obtain ⟨row, hrow, hid, hd⟩ := h
      exact ⟨row, by simpa [Request.apply, hinsert] using insertEntity_keeps hs hinsert hrow, hid, hd⟩

/-- A run of requests: an inserted entity stays as long as no unit that declares it comes in. -/
theorem afterAll_hasInserted {run : List Request} (hs : s.Sound) {id : Int} (h : s.HasInserted id k)
    (hforeign : ∀ done q rest, run = done ++ q :: rest → ¬ q.Declares (s.afterAll done) k) :
    (s.afterAll run).Sound ∧ (s.afterAll run).HasInserted id k := by
  induction run generalizing s with
  | nil => exact ⟨hs, h⟩
  | cons q run ih =>
    refine ih (apply_sound hs q) (apply_hasInserted hs (hforeign [] q run rfl) h) fun done q' rest heq => ?_
    exact hforeign (q :: done) q' rest (by rw [heq]; rfl)

end Store

/-! ## Stubs -/

/-- A unit of which nothing but its index file is left. -/
def UnitRecord.blank (file : String) : UnitRecord :=
  { indexFile := file }

/-- A source that offers blank units. -/
def Source.blank (files : List String) : Source where
  units := .ok (files.map fun file => (UnitRecord.blank file).unitStamp)
  load u := .ok (.blank u.indexFile)

section Blank

variable {files : List String}

theorem UnitRecord.blank_check {file : String} (h : file ≠ "") : (UnitRecord.blank file).check = .ok () := by
  have hfile : (UnitRecord.blank file).indexFile.isEmpty = false := by
    simpa [blank] using h
  unfold check
  rw [hfile]
  rfl

theorem UnitRecord.indexFile_ne {u : UnitRecord} (h : u.check = .ok ()) : u.indexFile ≠ "" := by
  intro hfile
  unfold check at h
  rw [hfile] at h
  cases h

theorem UnitRecord.not_mentions_blank (canon : String → String) (file : String) (k : EntityKey) :
    ¬ (UnitRecord.blank file).Mentions canon k := by
  simp [Mentions, mentioned, blank]

theorem UnitRecord.not_declares_blank (canon : String → String) (file : String) (k : EntityKey) :
    ¬ (UnitRecord.blank file).Declares canon k := by
  simp [Declares, Records, recorded, blank]

theorem Source.blank_faithful (h : files.Nodup) : (Source.blank files).Faithful := by
  intro units hunits
  obtain rfl := Except.ok.inj hunits
  refine ⟨?_, fun u hu => .inr ?_⟩
  · rw [List.map_map]
    exact h.map fun _ _ heq => heq
  · obtain ⟨file, -, rfl⟩ := List.mem_map.1 hu
    exact ⟨_, rfl, rfl⟩

theorem Source.usable_blank (h : ∀ file ∈ files, file ≠ "") :
    (Source.blank files).usable (allStale (files.map fun file => (UnitRecord.blank file).unitStamp)) =
      files.map UnitRecord.blank := by
  unfold usable allStale
  rw [List.map_map, List.filterMap_map, ← List.filterMap_eq_map]
  apply List.filterMap_congr
  intro file hfile
  have hcheck := UnitRecord.blank_check (h file hfile)
  have hload : (Source.blank files).load (UnitRecord.blank file).unitStamp = .ok (.blank file) := rfl
  simp [fetch, hload, hcheck, Except.toOption]

namespace Store

variable {canon : String → String} {s : Store} {k : EntityKey}

/-- Every stored unit has an index file. -/
theorem Met.indexFile_ne {Canonical : (String → String) → Prop} (h : s.Met Canonical) :
    ∀ row ∈ s.units, row.indexFile ≠ "" := by
  induction h with
  | fresh =>
    intro row hrow
    cases hrow
  | @write s t canon u hs _ h ih =>
    unfold writeUnit at h
    split at h
    · rename_i hu
      obtain rfl := Except.ok.inj h
      obtain ⟨id, hrows⟩ := (replaceUnit_respelled hs.sound hu).units
      intro row hrow
      rcases (hrows row).1 hrow with rfl | ⟨hold, -⟩
      · exact UnitRecord.indexFile_ne (UnitRecord.check_respelled hu)
      · exact ih row hold
    · cases h
  | prune _ _ ih => exact fun row hrow => ih row (List.mem_of_mem_filter hrow)
  | purge _ ih => exact ih
  | bump _ ih => exact ih
  | mark _ ih =>
    intro row hrow
    obtain ⟨row', hrow', rfl⟩ := List.mem_map.1 hrow
    exact ih row' hrow'
  | insert hs _ h ih =>
    rw [(insertEntity_spec hs.sound h).2.2]
    exact ih
  | @register s kind _ ih =>
    have hunits : (s.registerKind kind).units = s.units := by
      unfold registerKind
      split <;> rfl
    rwa [hunits]

/-- Writing blank units over all that is stored leaves nothing but these. -/
theorem replaceAll_blank (canon : String → String) : ∀ {files : List String} {s : Store}, s.Sound →
    (∀ file ∈ files, file ≠ "") →
    ((files.map UnitRecord.blank).foldl (replaceUnit canon) s).Sound ∧
      (∀ row ∈ ((files.map UnitRecord.blank).foldl (replaceUnit canon) s).units,
        row.indexFile ∈ files ∨ row ∈ s.units) ∧
      ∀ file, file ∈ files ∨ s.Holds canon (.blank file) →
        ((files.map UnitRecord.blank).foldl (replaceUnit canon) s).Holds canon (.blank file)
  | [], s, hs, _ => ⟨hs, fun row h => .inr h, fun file h => h.resolve_left List.not_mem_nil⟩
  | file :: files, s, hs, hne => by
    have hu := UnitRecord.blank_check (hne file List.mem_cons_self)
    have hreplaced : s.Replaced canon (.blank file) (s.replaceUnit canon (.blank file)) :=
      replaceUnit_spec hs hu (by simp [EntityKey.Alike, UnitRecord.recorded, UnitRecord.mentioned, UnitRecord.blank])
    obtain ⟨hsound, hunits, hholds⟩ := replaceAll_blank canon hreplaced.sound fun file' h =>
      hne file' (List.mem_cons_of_mem _ h)
    refine ⟨hsound, fun row hrow => ?_, fun file' hfile' => hholds file' ?_⟩
    · rcases hunits row hrow with h | h
      · exact .inl (List.mem_cons_of_mem _ h)
      · obtain ⟨id, hrows⟩ := hreplaced.units
        rcases (hrows row).1 h with rfl | ⟨h, -⟩
        · exact .inl List.mem_cons_self
        · exact .inr h
    · by_cases hsame : file' = file
      · subst hsame
        exact .inr (hreplaced.holds fun k hk => absurd hk (UnitRecord.not_mentions_blank canon file' k))
      · rcases hfile' with hmem | hold
        · exact .inl ((List.mem_cons.1 hmem).resolve_left hsame)
        · exact .inr (hreplaced.others _ hsame hold fun k hk => absurd hk (UnitRecord.not_mentions_blank canon file' k))

/-- In a store of blank units every stub is an orphan. -/
theorem row?_closed_blank (hamong : Among (files.map UnitRecord.blank) s)
    (hholds : ∀ file ∈ files, s.Holds canon (.blank file)) (hstub : ∀ e, s.row? k = some e → e.IsStub) :
    s.closed.row? k = none := by
  have hall : ∀ u ∈ files.map UnitRecord.blank, s.Holds canon u := by
    intro u hu
    obtain ⟨file, hfile, rfl⟩ := List.mem_map.1 hu
    exact hholds file hfile
  rw [row?_closed hamong.sound, Option.filter_eq_none_iff]
  intro e he
  have hsilent : s.isMentioned e.id = false := by
    rw [← Bool.not_eq_true]
    intro hm
    obtain ⟨u, hu, hk⟩ := hamong.mentioned_of_isMentioned hall ((names_iff_row? hamong.sound).2 ⟨e, he, rfl⟩) hm
    obtain ⟨file, -, rfl⟩ := List.mem_map.1 hu
    exact UnitRecord.not_mentions_blank canon file k hk
  simp [isOrphan, (hstub e he).owner, (hstub e he).dynamic, hsilent]

/-- An update that leaves all units blank loses every stub. -/
theorem update_blank (canon : String → String) (hs : s.Sound) (hnodup : files.Nodup) (hne : ∀ file ∈ files, file ≠ "")
    (hsome : files ≠ []) (hall : ∀ row ∈ s.units, row.indexFile ∈ files) (hstub : ∀ e, s.row? k = some e → e.IsStub) :
    ∃ m, (s.update canon {} (.blank files) true none).outcome = .ok m ∧
      (s.update canon {} (.blank files) true none).store.row? k = none := by
  obtain ⟨hsound, hunits, hholds⟩ := replaceAll_blank canon hs hne
  have hvalid : ∀ u ∈ files.map UnitRecord.blank, u.check = .ok () ∧ ¬ u.Declares canon k := by
    intro u hu
    obtain ⟨file, hfile, rfl⟩ := List.mem_map.1 hu
    exact ⟨UnitRecord.blank_check (hne file hfile), UnitRecord.not_declares_blank canon file k⟩
  have hstubs := (replaceAll_undisturbed hs (fun u hu => (hvalid u hu).1) fun u hu => (hvalid u hu).2).2.isStub hstub
  have hamong : Among (files.map UnitRecord.blank) ((files.map UnitRecord.blank).foldl (replaceUnit canon) s) := by
    refine ⟨hsound, ?_, fun row hrow => ?_⟩
    · rw [List.map_map]
      exact hnodup.map fun _ _ heq => heq
    · exact ⟨_, List.mem_map_of_mem ((hunits row hrow).elim id (hall row)), rfl⟩
  obtain ⟨m, hm, -, -, -, hstore⟩ := update_allStale canon (Source.blank_faithful hnodup) rfl
    (offered_forced {} s _) (missing_of_offered fun row hrow => ⟨_, List.mem_map_of_mem (hall row hrow), rfl⟩)
  refine ⟨m, hm, ?_⟩
  rw [hstore, Source.usable_blank hne, writtenAll, if_neg (by simpa using hsome)]
  exact row?_closed_blank hamong (fun file hfile => hholds file (.inl hfile)) hstubs

/-- Some update loses an entity that is a stub. -/
theorem update_loses_stub {Canonical : (String → String) → Prop} (hs : s.Reachable Canonical) (canon : String → String)
    (hstub : ∀ e, s.row? k = some e → e.IsStub) :
    ∃ src m, ¬ (Request.update canon {} src true).Declares s k ∧ (s.update canon {} src true none).outcome = .ok m ∧
      (s.update canon {} src true none).store.row? k = none := by
  -- one more unit makes sure that something is written, so that orphans are purged
  let files := ("-" :: s.units.map UnitRow.indexFile).dedup
  have hmem : ∀ file, file ∈ files ↔ file = "-" ∨ ∃ row ∈ s.units, row.indexFile = file := by
    simp [files]
  have hne : ∀ file ∈ files, file ≠ "" := by
    intro file hfile
    rcases (hmem file).1 hfile with rfl | ⟨row, hrow, rfl⟩
    · decide
    · exact hs.met.indexFile_ne row hrow
  obtain ⟨m, hm, hnone⟩ := update_blank canon hs.sound (List.nodup_dedup _) hne
    (List.ne_nil_of_mem ((hmem "-").2 (.inl rfl))) (fun row hrow => (hmem _).2 (.inr ⟨row, hrow, rfl⟩)) hstub
  refine ⟨.blank files, m, not_declares_of_load (fun units v u _ _ hload => ?_) s, hm, hnone⟩
  obtain rfl := Except.ok.inj hload
  exact UnitRecord.not_declares_blank canon _ k

/-! ## What becomes of an inserted entity -/

theorem insertEntity_of_check {r : EntityRecord} (hr : r.key.check = .ok ()) (canon : String → String) (s : Store) :
    ∃ e t, s.insertEntity canon r = .ok (e, t) := by
  unfold insertEntity
  rw [hr]
  exact ⟨_, _, rfl⟩

/-- A record without defects can be inserted, and if no unit that declares its entity has come into the
database, the id that is returned names its key. The id goes on to name it through every run of requests,
whether they succeed or not, as long as no such unit comes in, unless the insertion has found a stub. A stub
stays one, and there is an update that succeeds without such a unit and loses it. -/
theorem inserted_survives {r : EntityRecord} (hr : r.key.check = .ok ()) (hk : r.key.stored canon = k)
    (hs : s.Undeclared k) :
    ∃ e t, s.insertEntity canon r = .ok (e, t) ∧ t.Names e.id k ∧
      (¬ s.HasStub k → ∀ run : List Request,
        (∀ done q rest, run = done ++ q :: rest → ¬ q.Declares (t.afterAll done) k) → (t.afterAll run).Names e.id k) ∧
      (s.HasStub k → ∃ src m, ¬ (Request.update canon {} src true).Declares t k ∧
        (t.update canon {} src true none).outcome = .ok m ∧
        ¬ (t.update canon {} src true none).store.Names e.id k) := by
  subst hk
  obtain ⟨e, t, h⟩ := insertEntity_of_check hr canon s
  have ht : t.Undeclared (r.key.stored canon) := .insert hs h
  obtain ⟨⟨row, hrow, hid, hcase⟩, -⟩ := insertEntity_spec hs.sound h
  refine ⟨e, t, h, (names_iff_row? ht.sound).2 ⟨row, hrow, hid⟩, fun hno run hrun => ?_, fun hstub => ?_⟩
  · have hinserted : t.HasInserted e.id (r.key.stored canon) := by
      refine ⟨row, hrow, hid, ?_⟩
      rcases hcase with hold | ⟨-, -, hd⟩
      · -- the row was there without an owner, so it is marked unless it is a stub
        by_contra hd
        exact hno ⟨row, hold, hs.unowned row hold, Bool.eq_false_iff.2 hd⟩
      · exact hd
    obtain ⟨hsound, row', hrow', hid', -⟩ := afterAll_hasInserted ht.sound hinserted hrun
    exact (names_iff_row? hsound).2 ⟨row', hrow', hid'⟩
  · obtain ⟨stub, hold, hstub⟩ := hstub
    have hrow : t.row? (r.key.stored canon) = some stub := insertEntity_keeps hs.sound h hold
    obtain ⟨src, m, hforeign, hm, hnone⟩ := update_loses_stub ht.reachable canon (k := r.key.stored canon)
      fun e' he' => Option.some.inj (hrow.symm.trans he') ▸ hstub
    refine ⟨src, m, hforeign, hm, fun hnames => ?_⟩
    have hsound : (t.update canon {} src true none).store.Sound := apply_sound ht.sound (.update canon {} src true)
    obtain ⟨row', hrow', -⟩ := (names_iff_row? hsound).1 hnames
    rw [hnone] at hrow'
    cases hrow'

end Store

end Blank

namespace Sample

/-- A unit that records and mentions an entity of another file. -/
def borrowing : UnitRecord :=
  { referring declared with entities := [declared] }

/-- An update from some units in memory. -/
def updateFrom (us : List UnitRecord) : Request :=
  .update Path.normalize {} (MemorySource.ofUnits us).toSource false

theorem updateFrom_borrowing (s : Store) : ¬ (updateFrom [borrowing]).Declares s declared.key := by
  refine Store.not_declares_of_load (fun units v u hunits hv hload => ?_) s
  obtain rfl : [⟨"b.ali", 1, none⟩] = units := Except.ok.inj hunits
  obtain rfl := List.mem_singleton.1 hv
  obtain rfl : borrowing = u := Except.ok.inj hload
  unfold UnitRecord.Declares UnitRecord.Lists
  decide +kernel

theorem updateFrom_nil (s : Store) (k : EntityKey) : ¬ (updateFrom []).Declares s k := by
  refine Store.not_declares_of_load (fun units v u hunits hv _ => ?_) s
  obtain rfl : [] = units := Except.ok.inj hunits
  cases hv

end Sample

open Sample in
/-- A new entity outlives a unit that records and mentions it and goes again. If the unit was there first,
the insertion finds its stub, which some update loses. -/
theorem Store.borrowed_survives :
    (∃ e t, Store.fresh.insertEntity Path.normalize declared = .ok (e, t) ∧
      (t.afterAll [updateFrom [borrowing], updateFrom []]).Names e.id declared.key) ∧
    ∃ e t, ((updateFrom [borrowing]).apply Store.fresh).insertEntity Path.normalize declared = .ok (e, t) ∧
      t.Names e.id declared.key ∧
      ∃ q : Request, ¬ q.Declares t declared.key ∧ ¬ (q.apply t).Names e.id declared.key := by
  have hkey : declared.key.stored Path.normalize = declared.key := by decide +kernel
  constructor
  · obtain ⟨e, t, h, -, hstays, -⟩ := inserted_survives (r := declared) rfl hkey .fresh
    refine ⟨e, t, h, hstays ?_ _ fun done q rest heq => ?_⟩
    · rintro ⟨row, hrow, -⟩
      cases hrow
    · have hq : q ∈ [updateFrom [borrowing], updateFrom []] := by
        rw [heq]
        simp
      rcases List.mem_pair.1 hq with rfl | rfl
      · exact updateFrom_borrowing _
      · exact updateFrom_nil _ _
  · have hundeclared : ((updateFrom [borrowing]).apply Store.fresh).Undeclared declared.key :=
      .update .fresh (fun _ h => by cases h) fun seeded _ _ _ u hu hk => updateFrom_borrowing seeded ⟨u, hu, hk⟩
    obtain ⟨e, t, h, hnames, -, hlost⟩ := inserted_survives (r := declared) rfl hkey hundeclared
    have hstub : ((updateFrom [borrowing]).apply Store.fresh).HasStub declared.key :=
      ⟨⟨1, "Count", "object", some ⟨2, 1, 3⟩, false, false, 0, none, false⟩, by decide +kernel, rfl, rfl⟩
    obtain ⟨src, m, hforeign, -, hgone⟩ := hlost hstub
    exact ⟨e, t, h, hnames, _, hforeign, hgone⟩

-- The stub of a mere mention goes with the unit that mentions it, although it was inserted in between.
open Sample in
example : ((Store.fresh.afterAll [updateFrom [referring declared], .insert Path.normalize declared]).keyAt? 1,
    (Store.fresh.afterAll [updateFrom [referring declared], .insert Path.normalize declared, updateFrom []]).keyAt? 1) =
      (some declared.key, none) := by
  decide +kernel

end CrossIndex
