/-
A forced update. Every unit is written again into the store that its own writing has led to: owners are
taken over and taken back, stubs come up and are purged again. Main statement: units, files and entities
come out as they were, with their ids and in their order, and so do the rows of the other tables, each as
often as before; only the generation goes on.
-/
import CrossIndex.Proofs.Store.Renaming
import CrossIndex.Proofs.Update.Idempotent
import CrossIndex.Proofs.Update.Rewrite

namespace CrossIndex

/-! ## Lists -/

/-- Elements that a map tells apart can be put in the same order as their images. -/
theorem perm_of_map_perm {α β : Type} {f : α → β} {l l' : List α} (hinj : ∀ a ∈ l, ∀ b ∈ l', f a = f b → a = b)
    (h : (l.map f).Perm (l'.map f)) : l.Perm l' := by
  have hsame : (l.map id).Perm l' := Store.perm_of_readings (fun a ha b hb heq => hinj a ha b hb heq.symm) h
  rwa [List.map_id] at hsame

/-- Elements whose keys come first, and which are all there, come first themselves. -/
theorem prefix_of_map_prefix {α κ : Type} {key : α → κ} : ∀ {l l' : List α}, (l'.map key).Nodup → (∀ a ∈ l, a ∈ l') →
    l.map key <+: l'.map key → l <+: l'
  | [], _, _, _, _ => List.nil_prefix
  | a :: l, l', hn, hsub, h => by
    cases l' with
    | nil => simp at h
    | cons b l' =>
      rw [List.map_cons, List.map_cons, List.cons_prefix_cons] at h
      obtain ⟨hkey, h⟩ := h
      obtain rfl := List.inj_on_of_nodup_map hn (hsub a List.mem_cons_self) List.mem_cons_self hkey
      obtain ⟨hnot, hn⟩ := List.nodup_cons.1 hn
      rw [List.cons_prefix_cons]
      refine ⟨rfl, prefix_of_map_prefix hn (fun x hx => ?_) h⟩
      refine (List.mem_cons.1 (hsub x (List.mem_cons_of_mem _ hx))).resolve_left ?_
      rintro rfl
      exact hnot (h.subset (List.mem_map.2 ⟨x, hx, rfl⟩))

/-! ## The end of a pass -/

variable {canon : String → String} {us : List UnitRecord} {k : EntityKey}

namespace Store

variable {s t : Store}

theorem purgeOrphans_eq (hs : s.Sound) :
    s.purgeOrphans = { s with entities := s.entities.filter fun e => !s.isOrphan e } := by
  unfold purgeOrphans
  rw [deleteEntities_of_unmentioned]
  · congr 1
    apply List.filter_congr
    intro e he
    rw [Bool.eq_iff_iff, Bool.not_eq_true', Bool.not_eq_true', ← Bool.not_eq_true, ← Bool.not_eq_true,
      List.contains_iff_mem, id_mem_orphans hs he]
  · intro id hid
    rw [← Bool.not_eq_true, List.contains_iff_mem, List.mem_map]
    rintro ⟨e, he, rfl⟩
    have ho := (List.mem_filter.1 he).2
    simp [isOrphan, hid] at ho

/-- The store at the end of a pass that has written something. -/
def closed (s : Store) : Store :=
  s.purgeOrphans.bump

theorem closed_eq (hs : s.Sound) : s.closed =
    { s with entities := s.entities.filter fun e => !s.isOrphan e, generation := s.generation + 1 } := by
  unfold closed
  rw [purgeOrphans_eq hs]
  rfl

theorem closed_sound (hs : s.Sound) : s.closed.Sound :=
  bump_sound (purgeOrphans_sound hs)

theorem row?_closed (hs : s.Sound) (k : EntityKey) : s.closed.row? k = (s.row? k).filter fun e => !s.isOrphan e :=
  row?_purgeOrphans hs k

theorem Holds.closed (hs : s.Sound) {u : UnitRecord} (h : s.Holds canon u) : s.closed.Holds canon u :=
  ⟨(h.purgeOrphans hs).references, (h.purgeOrphans hs).relations, (h.purgeOrphans hs).dependencies⟩

end Store

theorem Grounded.closed {s : Store} (hs : s.Sound) (h : Grounded canon us s) : Grounded canon us s.closed := by
  intro k v file hv ho
  have hview : s.closed.view? k = ((s.row? k).filter fun e => !s.isOrphan e).map s.view :=
    congrArg (Option.map s.view) (Store.row?_closed hs k)
  rw [hview] at hv
  obtain ⟨e, he, rfl⟩ := Option.map_eq_some_iff.1 hv
  have hrow := (Option.filter_eq_some_iff.1 he).1
  exact h k _ file (by rw [Store.view?, hrow, Option.map_some]) ho

/-- In a store of some units, what is mentioned is what the units mention. -/
theorem Among.isMentioned_iff {s : Store} (h : Among us s) (hholds : ∀ u ∈ us, s.Holds canon u) {id : Int}
    (hid : s.Names id k) : s.isMentioned id = true ↔ Mentioned canon us k := by
  constructor
  · exact h.mentioned_of_isMentioned hholds hid
  · rintro ⟨u, hu, hk⟩
    obtain ⟨id', hid', hm⟩ := (hholds u hu).isMentioned h.sound hk
    rw [(hid.id_eq_iff h.sound hid').2 rfl]
    exact hm

/-! ## Writing everything twice -/

/-- Some units are written into a fresh store, and again into what this has led to. -/
structure Twice (canon : String → String) (us : List UnitRecord) (s t : Store) : Prop where
  distinct : (us.map UnitRecord.indexFile).Nodup
  first : Rewritten canon us Store.fresh s
  second : Rewritten canon us s.closed t

namespace Twice

variable {s t : Store} (h : Twice canon us s t)

include h

theorem among_first : Among us s :=
  h.first.among h.distinct

theorem units : t.units = s.units :=
  h.second.units h.first.entered

theorem among_second : Among us t := by
  refine ⟨h.second.sound, h.distinct, fun row hrow => ?_⟩
  rw [h.units] at hrow
  exact h.among_first.units row hrow

/-- Both runs know the units under the same ids. -/
theorem numbered : ∃ ids : String → Int, ∀ u ∈ us, s.indexFileAt? (ids u.indexFile) = some u.indexFile ∧
    t.indexFileAt? (ids u.indexFile) = some u.indexFile := by
  obtain ⟨ids, hids⟩ := h.first.numbered
  refine ⟨ids, fun u hu => ⟨hids u hu, ?_⟩⟩
  have hat := hids u hu
  unfold Store.indexFileAt? at hat ⊢
  rw [h.units]
  exact hat

/-- Whether a row is an orphan after the second run, where it was known under the same key after the first. -/
theorem isOrphan_eq {e e' : EntityRow} (he : s.row? k = some e) (he' : t.row? k = some e')
    (howner : e'.owner.isNone = e.owner.isNone) (hdynamic : e'.dynamic = e.dynamic) : t.isOrphan e' = s.isOrphan e := by
  have hid : s.Names e.id k := (Store.names_iff_row? h.first.sound).2 ⟨e, he, rfl⟩
  have hid' : t.Names e'.id k := (Store.names_iff_row? h.second.sound).2 ⟨e', he', rfl⟩
  have hmentioned : t.isMentioned e'.id = s.isMentioned e.id := by
    rw [Bool.eq_iff_iff, h.among_first.isMentioned_iff h.first.holds hid,
      h.among_second.isMentioned_iff h.second.holds hid']
  unfold Store.isOrphan
  rw [howner, hdynamic, hmentioned]

/-- What is left after the first run stays as it is in the second. -/
theorem keeps {e : EntityRow} (he : s.closed.row? k = some e) : t.row? k = some e ∧ t.isOrphan e = false := by
  have hfilter := he
  rw [Store.row?_closed h.first.sound, Option.filter_eq_some_iff] at hfilter
  obtain ⟨hrow, hstays⟩ := hfilter
  have hkeep : t.row? k = some e := by
    by_cases htouch : ∃ u ∈ us, u.Touches canon k
    · obtain ⟨ids, hids⟩ := h.numbered
      obtain ⟨decl, id, hfirst⟩ := h.first.row ids (fun u hu => (hids u hu).1) k htouch
      obtain ⟨decl', id', hsecond⟩ := h.second.row ids (fun u hu => (hids u hu).2) k htouch
      rw [hrow, Option.some.injEq] at hfirst
      rw [hsecond, he, Option.getD_some, hfirst, EntityRow.takeIn_takeIn]
    · rw [h.second.other k fun u hu ht => htouch ⟨u, hu, ht⟩, he]
  refine ⟨hkeep, ?_⟩
  rw [h.isOrphan_eq hrow hkeep rfl rfl]
  simpa using hstays

/-- What was purged after the first run comes up in the second, if at all, as an orphan. -/
theorem purges {e : EntityRow} (hnone : s.closed.row? k = none) (he : t.row? k = some e) : t.isOrphan e = true := by
  have htouch : ∃ u ∈ us, u.Touches canon k := by
    by_contra hno
    rw [h.second.other k fun u hu ht => hno ⟨u, hu, ht⟩, hnone] at he
    cases he
  obtain ⟨ids, hids⟩ := h.numbered
  obtain ⟨decl, id, hfirst⟩ := h.first.row ids (fun u hu => (hids u hu).1) k htouch
  obtain ⟨decl', id', hsecond⟩ := h.second.row ids (fun u hu => (hids u hu).2) k htouch
  rw [hnone, he, Option.some.injEq] at hsecond
  rw [Store.row?_closed h.first.sound, hfirst, Option.filter_some] at hnone
  have horphan :
      s.isOrphan (((Store.fresh.row? k).getD (Store.stub k.name decl id)).takeIn (entriesOf canon ids us k)) =
        true := by
    by_contra hno
    simp [hno] at hnone
  have howner :
      (((Store.fresh.row? k).getD (Store.stub k.name decl id)).takeIn (entriesOf canon ids us k)).owner = none := by
    unfold Store.isOrphan at horphan
    simp only [Bool.and_eq_true, Option.isNone_iff_eq_none] at horphan
    exact horphan.1.1
  -- no unit declares the entity, so both rows have the owner and the mark of a stub
  have hforeign := (EntityRow.takeIn_owner_eq_none howner).2
  obtain ⟨ho, hd⟩ := EntityRow.takeIn_foreign hforeign ((Store.fresh.row? k).getD (Store.stub k.name decl id))
  obtain ⟨ho', hd'⟩ := EntityRow.takeIn_foreign hforeign (Store.stub k.name decl' id')
  rw [← horphan]
  refine h.isOrphan_eq hfirst he ?_ ?_
  · rw [hsecond, ho, Option.getD_none, ho']
    rfl
  · rw [hsecond, hd, Option.getD_none, hd']
    rfl

theorem entities : t.closed.entities = s.closed.entities := by
  have hs := Store.closed_sound h.first.sound
  have hkeep : ∀ e ∈ s.closed.entities, e ∈ t.entities ∧ t.isOrphan e = false := by
    intro e he
    obtain ⟨hrow, ho⟩ := h.keeps ((Store.row?_eq_some hs).2 ⟨he, rfl⟩)
    exact ⟨((Store.row?_eq_some h.second.sound).1 hrow).1, ho⟩
  -- the rows of before come first and stay, and what comes after them is purged again
  obtain ⟨new, hnew⟩ := prefix_of_map_prefix h.second.sound.entityIds (fun e he => (hkeep e he).1) h.second.ids
  have hold : (s.closed.entities.filter fun e => !t.isOrphan e) = s.closed.entities := by
    rw [List.filter_eq_self]
    intro e he
    simp [(hkeep e he).2]
  have hgone : (new.filter fun e => !t.isOrphan e) = [] := by
    rw [List.filter_eq_nil_iff]
    intro e he
    have hmem : e ∈ t.entities := by
      rw [← hnew]
      exact List.mem_append_right _ he
    have hrow : t.row? (t.keyOf e) = some e := (Store.row?_eq_some h.second.sound).2 ⟨hmem, rfl⟩
    have hnone : s.closed.row? (t.keyOf e) = none := by
      rw [Option.eq_none_iff_forall_ne_some]
      intro e' he'
      obtain rfl : e' = e := Option.some.inj ((h.keeps he').1.symm.trans hrow)
      have hids := h.second.sound.entityIds
      rw [← hnew, List.map_append] at hids
      exact (List.nodup_append.1 hids).2.2 _ (List.mem_map_of_mem ((Store.row?_eq_some hs).1 he').1) _
        (List.mem_map_of_mem he) rfl
    simp [h.purges hnone hrow]
  rw [Store.closed_eq h.second.sound]
  show (t.entities.filter fun e => !t.isOrphan e) = _
  rw [← hnew, List.filter_append, hold, hgone, List.append_nil]

theorem files : t.files = s.files := by
  obtain ⟨new, hnew, hpaths⟩ := h.second.files
  have hnone : new = [] := by
    rw [List.eq_nil_iff_forall_not_mem]
    intro f hf
    obtain ⟨u, hu, hpath⟩ := hpaths f hf
    -- the second run asks for the paths that the first one has asked for
    have hthere : f.path ∈ s.closed.files.map SourceFile.path := h.first.asked u hu f.path hpath
    have hdistinct := h.second.sound.paths
    rw [hnew, List.map_append] at hdistinct
    exact (List.nodup_append.1 hdistinct).2.2 _ hthere _ (List.mem_map_of_mem hf) rfl
  rw [hnew, hnone, List.append_nil]
  rfl

theorem among_closed : Among us s.closed :=
  ⟨Store.closed_sound h.first.sound, h.distinct, h.among_first.units⟩

/-- A table whose rows read the same unit by unit has the same rows. -/
theorem perm_table {α β : Type} {unit : α → Int} {read read' : α → β} {rows rows' : List α}
    (hrows : ∀ r ∈ rows, s.closed.HasUnit (unit r)) (hrows' : ∀ r ∈ rows', t.HasUnit (unit r))
    (hstays : ∀ r ∈ rows, read' r = read r)
    (hinj : ∀ r ∈ rows, ∀ r' ∈ rows', unit r = unit r' → read' r = read' r' → r = r')
    (hunits : ∀ u ∈ us, (s.closed.ofUnit unit read rows u.indexFile).Perm (t.ofUnit unit read' rows' u.indexFile)) :
    rows'.Perm rows := by
  have hperm := h.among_closed.perm_rows h.among_second hrows hrows' hunits
  have hread : (rows.map fun r => (s.closed.indexFileAt? (unit r), read r)) =
      rows.map fun r => (t.indexFileAt? (unit r), read' r) := by
    apply List.map_congr_left
    intro r hr
    rw [hstays r hr, h.second.grows.indexFileAt? h.among_closed.sound h.second.sound (hrows r hr)]
  rw [hread] at hperm
  refine (perm_of_map_perm (fun r hr r' hr' heq => ?_) hperm).symm
  obtain ⟨hfile, hsame⟩ := Prod.mk.inj heq
  obtain ⟨u, -, hu⟩ := h.among_second.indexFileAt? (hrows' r' hr')
  exact hinj r hr r' hr' (Store.indexFileAt?_inj h.second.sound (hfile.trans hu) hu) hsame

theorem references : t.references.Perm s.closed.references := by
  have hs := h.among_closed.sound
  have ht := h.second.sound
  have hg := h.second.grows
  refine h.perm_table (fun r hr => (hs.references r hr).unit) (fun r hr => (ht.references r hr).unit)
    (fun r hr => hg.referenceRecord? hs ht (hs.references r hr)) (fun r hr r' hr' => ?_) fun u hu => ?_
  · exact Store.referenceRecord?_inj ht ((hs.references r hr).mono hg) (ht.references r' hr')
  · exact .of_eq ((Store.Holds.closed h.first.sound (h.first.holds u hu)).references.trans
      (h.second.holds u hu).references.symm)

theorem relations : t.relations.Perm s.closed.relations := by
  have hs := h.among_closed.sound
  have ht := h.second.sound
  have hg := h.second.grows
  refine h.perm_table (fun r hr => (hs.relations r hr).unit) (fun r hr => (ht.relations r hr).unit)
    (fun r hr => hg.relationRecord? hs ht (hs.relations r hr)) (fun r hr r' hr' => ?_) fun u hu => ?_
  · exact Store.relationRecord?_inj ht ((hs.relations r hr).mono hg) (ht.relations r' hr')
  · exact .of_eq ((Store.Holds.closed h.first.sound (h.first.holds u hu)).relations.trans
      (h.second.holds u hu).relations.symm)

theorem dependencies : t.dependencies.Perm s.closed.dependencies := by
  have hs := h.among_closed.sound
  have ht := h.second.sound
  have hg := h.second.grows
  refine h.perm_table (fun d hd => (hs.dependencies d hd).unit) (fun d hd => (ht.dependencies d hd).unit)
    (fun d hd => hg.dependencyPaths? hs ht (hs.dependencies d hd)) (fun d hd d' hd' => ?_) fun u hu => ?_
  · exact Store.dependencyPaths?_inj ht ((hs.dependencies d hd).mono (fun _ => hg.hasUnit) fun _ => hg.hasFile)
      (ht.dependencies d' hd')
  · exact (Store.Holds.closed h.first.sound (h.first.holds u hu)).dependencies.trans
      (h.second.holds u hu).dependencies.symm

end Twice

/-- Two stores with the same units, files, kinds and entities, and with the same rows in the other tables,
each as often. -/
structure SameRows (s t : Store) : Prop where
  units : t.units = s.units
  files : t.files = s.files
  kinds : t.kinds = s.kinds
  entities : t.entities = s.entities
  references : t.references.Perm s.references
  relations : t.relations.Perm s.relations
  dependencies : t.dependencies.Perm s.dependencies

theorem SameRows.refl (s : Store) : SameRows s s :=
  ⟨rfl, rfl, rfl, rfl, .refl _, .refl _, .refl _⟩

theorem Twice.sameRows {s t : Store} (h : Twice canon us s t) : SameRows s.closed t.closed := by
  have ht := Store.closed_eq h.second.sound
  refine ⟨h.units, h.files, h.second.kinds, h.entities, ?_, ?_, ?_⟩
  · rw [ht]
    exact h.references
  · rw [ht]
    exact h.relations
  · rw [ht]
    exact h.dependencies

/-! ## Updates that write everything -/

/-- The store after a pass that has written some units and pruned none. -/
def Store.writtenAll (canon : String → String) (us : List UnitRecord) (s : Store) : Store :=
  if us.isEmpty then s else (us.foldl (Store.replaceUnit canon) s).closed

/-- All units of a list, as stale ones. -/
def allStale (units : List UnitStamp) : List (UnitStamp × Bool) :=
  units.map fun u => (u, true)

section Update

variable {config : Config} {src : Source} {force : Bool} {s : Store} {units : List UnitStamp}

/-- An update of a faithful source that finds every unit stale and none to prune. -/
theorem update_allStale (canon : String → String) (hsrc : src.Faithful) (hunits : src.units = .ok units)
    (hstale : (Plan.make config force s units).offered = allStale units)
    (hmissing : (Plan.make config force s units).missing = []) :
    ∃ m, (s.update canon config src force none).outcome = .ok m ∧ m.ingested = (src.usable (allStale units)).length ∧
      m.failed = (src.refused (allStale units)).length ∧ m.pruned = 0 ∧
      (s.update canon config src force none).store = s.writtenAll canon (src.usable (allStale units)) := by
  let p := Pass.after canon src units.length { store := s } (allStale units)
  have hsettled : settled canon config force src s units = p.finish := by
    unfold settled
    rw [hmissing, hstale]
    rfl
  rw [show s.update canon config src force none = _ from update_settled force hsrc hunits, hsettled]
  obtain ⟨hingested, hfailed, hpruned, -⟩ := p.finish_frame
  refine ⟨_, rfl, hingested.trans (Nat.zero_add _), hfailed.trans (Nat.zero_add _), hpruned, ?_⟩
  show p.finish.store = s.writtenAll canon (src.usable (allStale units))
  have hwrote : p.wrote = !(src.usable (allStale units)).isEmpty := by
    cases hu : src.usable (allStale units) with
    | nil => simp [p, Pass.wrote, Pass.after, hu]
    | cons u us => simp [p, Pass.wrote, Pass.after, hu]
  unfold Pass.finish Store.writtenAll
  rw [hwrote]
  cases hu : src.usable (allStale units) with
  | nil => simp [p, Pass.after, hu]
  | cons u us => simp [p, Pass.after, hu, Store.closed]

theorem offered_fresh (config : Config) (force : Bool) (units : List UnitStamp) :
    (Plan.make config force Store.fresh units).offered = allStale units := by
  unfold Plan.make allStale
  apply List.map_congr_left
  intro u _
  have hnone : Store.fresh.unit? u.indexFile = none := rfl
  simp [hnone, UnitStamp.isUpToDate]

theorem offered_forced (config : Config) (s : Store) (units : List UnitStamp) :
    (Plan.make config true s units).offered = allStale units := by
  simp [Plan.make, allStale]

/-- Nothing is missing in a store all of whose units are offered. -/
theorem missing_of_offered (h : ∀ row ∈ s.units, ∃ u ∈ units, u.indexFile = row.indexFile) :
    (Plan.make config force s units).missing = [] := by
  rw [List.eq_nil_iff_forall_not_mem]
  intro file hfile
  obtain ⟨-, ⟨row, hrow, -, rfl⟩, hnone⟩ := mem_missing_make hfile
  obtain ⟨u, hu, hf⟩ := h row hrow
  exact hnone u hu hf

end Update

theorem foldl_respelled (canon : String → String) (us : List UnitRecord) (s : Store) :
    (us.map (UnitRecord.respelled canon)).foldl (Store.replaceUnit canon) s = us.foldl (Store.replaceUnit canon) s := by
  rw [List.foldl_map]
  congr 1
  funext s u
  exact congrArg Writer.finish (Writer.drafted_respelled canon s u)

/-- Units without defects can be written as the cache of a writer spells them. -/
theorem writable_respelled (canon : String → String) (hd : (us.map UnitRecord.indexFile).Nodup)
    (hcheck : ∀ u ∈ us, u.check = .ok ()) : Writable canon (us.map (UnitRecord.respelled canon)) := by
  refine ⟨?_, fun u hu => ?_, fun u hu => ?_⟩
  · rw [List.map_map]
    exact hd
  · obtain ⟨v, hv, rfl⟩ := List.mem_map.1 hu
    exact UnitRecord.check_respelled (hcheck v hv)
  · obtain ⟨v, -, rfl⟩ := List.mem_map.1 hu
    exact UnitRecord.respelled_spelled canon v

theorem twice_of_writable (hw : Writable canon us) : Twice canon us (us.foldl (Store.replaceUnit canon) Store.fresh)
    (us.foldl (Store.replaceUnit canon) (us.foldl (Store.replaceUnit canon) Store.fresh).closed) := by
  obtain ⟨hgrounded, hfirst⟩ := (Grounded.fresh canon us).replaceAll hw Store.fresh_sound (List.Sublist.refl us)
  obtain ⟨-, hsecond⟩ := (hgrounded.closed hfirst.sound).replaceAll hw
    (Store.closed_sound hfirst.sound) (List.Sublist.refl us)
  exact ⟨hw.distinct, hfirst, hsecond⟩

/-- Writing all units again, where a first pass has written them into a fresh store. -/
theorem writtenAll_again (canon : String → String) (hd : (us.map UnitRecord.indexFile).Nodup)
    (hcheck : ∀ u ∈ us, u.check = .ok ()) :
    (∀ row ∈ (Store.fresh.writtenAll canon us).units, row.indexFile ∈ us.map UnitRecord.indexFile) ∧
      SameRows (Store.fresh.writtenAll canon us) ((Store.fresh.writtenAll canon us).writtenAll canon us) ∧
      ((Store.fresh.writtenAll canon us).writtenAll canon us).generation =
        (Store.fresh.writtenAll canon us).generation + if 0 < us.length then 1 else 0 := by
  cases hus : us with
  | nil => exact ⟨fun row h => absurd h List.not_mem_nil, .refl _, rfl⟩
  | cons u rest =>
    rw [← hus]
    have hwritten : ∀ s : Store, s.writtenAll canon us = (us.foldl (Store.replaceUnit canon) s).closed := by
      intro s
      rw [Store.writtenAll, hus]
      rfl
    have htwice := twice_of_writable (writable_respelled canon hd hcheck)
    rw [foldl_respelled, foldl_respelled] at htwice
    rw [hwritten, hwritten]
    refine ⟨fun row hrow => ?_, htwice.sameRows, ?_⟩
    · obtain ⟨v, hv, hf⟩ := htwice.among_closed.units row hrow
      obtain ⟨v', hv', rfl⟩ := List.mem_map.1 hv
      exact List.mem_map.2 ⟨v', hv', hf.symm⟩
    · have hpos : 0 < us.length := by simp [hus]
      rw [if_pos hpos]
      exact congrArg (· + 1) (Store.foldl_replaceUnit_generation canon us _)

/-- A second update that does again what a first one has done: it ingests and fails as many units, prunes
none, and leaves the same rows; only the generation goes on, by one if any unit was ingested. -/
structure Reproduces (first second : UpdateResult) : Prop where
  outcome : ∃ m m', first.outcome = .ok m ∧ second.outcome = .ok m' ∧ m'.ingested = m.ingested ∧ m'.failed = m.failed ∧
    m'.pruned = 0 ∧ second.store.generation = first.store.generation + if 0 < m.ingested then 1 else 0
  rows : SameRows first.store second.store

/-- A forced update reproduces the store that the same source has made out of a fresh one. -/
theorem forced_reproduces (m : MemorySource) (hm : m.Built) (canon : String → String) (config config' : Config)
    (force : Bool) : Reproduces (Store.fresh.update canon config m.toSource force none)
      ((Store.fresh.update canon config m.toSource force none).store.update canon config' m.toSource true none) := by
  let units := m.units.map MemorySource.stampOf
  have hsrc := hm.faithful
  have hunits : m.toSource.units = .ok units := rfl
  let us := m.toSource.usable (allStale units)
  have hmap : (allStale units).map (·.1) = units := by simp [allStale, Function.comp_def]
  have hfiles : (us.map UnitRecord.indexFile).Sublist (units.map UnitStamp.indexFile) :=
    usable_indexFiles hsrc hunits hmap
  obtain ⟨hoffered, hrows, hgeneration⟩ := writtenAll_again canon
    ((hsrc units hunits).1.sublist hfiles) Source.usable_check
  obtain ⟨n, hn, hingested, hfailed, -, hstore⟩ := update_allStale canon hsrc hunits
    (offered_fresh config force units) (missing_of_offered fun row h => absurd h List.not_mem_nil)
  have hmissing : ∀ row ∈ (Store.fresh.writtenAll canon us).units, ∃ u ∈ units, u.indexFile = row.indexFile := by
    intro row hrow
    exact List.mem_map.1 (hfiles.subset (hoffered row hrow))
  obtain ⟨n', hn', hingested', hfailed', hpruned', hstore'⟩ := update_allStale canon hsrc hunits
    (offered_forced config' (Store.fresh.writtenAll canon us) units) (missing_of_offered hmissing)
  rw [hstore]
  refine ⟨⟨n, n', hn, hn', hingested'.trans hingested.symm, hfailed'.trans hfailed.symm, hpruned', ?_⟩, ?_⟩
  · rw [hstore, hstore', hingested]
    exact hgeneration
  · rw [hstore, hstore']
    exact hrows

namespace Sample

/-- A unit with the source file of another one, which records the same entity as of another kind. -/
def sharing : UnitRecord where
  indexFile := "b.ali"
  stamp := 1
  sourceFiles := ["a.ads"]
  entities := [⟨"Count", "variable", some ⟨"a.ads", 1, 3⟩, {}⟩]
  references := [⟨declared.key, ⟨"a.ads", 4, 1⟩, 'r', none⟩]

/-- Two units that share a source file, and one that cannot be read. -/
def shared : MemorySource :=
  MemorySource.insertUnreadable (.ofUnits [recording 1 [declared, predefined], sharing]) "c.ali" "no header"

end Sample

open Sample in
/-- The later unit takes the entity over, in the forced update as well, and the one that nothing mentions
is purged in both. -/
theorem shared_reproduces :
    (Store.fresh.update Path.normalize {} shared.toSource false none).store.entities.map EntityRow.kind = ["variable"] ∧
      Reproduces (Store.fresh.update Path.normalize {} shared.toSource false none)
        ((Store.fresh.update Path.normalize {} shared.toSource false none).store.update Path.normalize {}
          shared.toSource true none) :=
  ⟨by decide +kernel,
    forced_reproduces shared (.insertUnreadable _ _ (.foldl_insert _ .empty)) Path.normalize {} {} false⟩

end CrossIndex
