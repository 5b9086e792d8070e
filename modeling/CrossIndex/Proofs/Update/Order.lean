/-
The order in which units are written. A unit may mention the entities of others before these are declared:
stubs come up, are described by whoever records them first and are taken over by the unit that declares
them, under other ids in every order. Main statement: units that share no source file and do not
contradict each other lead to the same store in every order, up to its ids.
-/
import CrossIndex.Proofs.Store.Renaming
import CrossIndex.Proofs.Update.Forced
import Mathlib.Data.List.Pairwise

namespace CrossIndex

/-- Units that are independent of each other: they have no defects, no two share an index file or a source
file, every entity they record has a kind, and they agree on the entities that none of them declares. -/
structure Independent (canon : String → String) (us : List UnitRecord) : Prop where
  valid : ∀ u ∈ us, u.check = .ok ()
  distinct : (us.map UnitRecord.indexFile).Nodup
  apart : us.Pairwise fun u w => ∀ path ∈ u.sourceFiles.map canon, path ∉ w.sourceFiles.map canon
  known : ∀ u ∈ us, ∀ r ∈ u.entities, r.kind ≠ ""
  agree : ∀ u ∈ us, ∀ w ∈ us, ∀ r ∈ u.entities, ∀ r' ∈ w.entities, r.key.stored canon = r'.key.stored canon →
    ¬ Declared canon us (r.key.stored canon) → r.kind = r'.kind ∧ r.flags = r'.flags

set_option synthInstance.maxSize 256 in
instance (canon : String → String) (us : List UnitRecord) : Decidable (Independent canon us) :=
  decidable_of_iff ((∀ u ∈ us, u.check = .ok ()) ∧ (us.map UnitRecord.indexFile).Nodup ∧
    (us.Pairwise fun u w => ∀ path ∈ u.sourceFiles.map canon, path ∉ w.sourceFiles.map canon) ∧
    (∀ u ∈ us, ∀ r ∈ u.entities, r.kind ≠ "") ∧
    ∀ u ∈ us, ∀ w ∈ us, ∀ r ∈ u.entities, ∀ r' ∈ w.entities, r.key.stored canon = r'.key.stored canon →
      ¬ Declared canon us (r.key.stored canon) → r.kind = r'.kind ∧ r.flags = r'.flags)
    ⟨fun ⟨h₁, h₂, h₃, h₄, h₅⟩ => ⟨h₁, h₂, h₃, h₄, h₅⟩, fun ⟨h₁, h₂, h₃, h₄, h₅⟩ => ⟨h₁, h₂, h₃, h₄, h₅⟩⟩

variable {canon : String → String} {us us' : List UnitRecord} {u : UnitRecord} {k : EntityKey} {s t : Store}
  {v : EntityView}

/-! ## Views under one unit after the other -/

/-- What some units make of the view of a key, one after the other. -/
def putViews (canon : String → String) (us : List UnitRecord) (k : EntityKey) (v : EntityView) : EntityView :=
  us.foldl (fun v u => u.putView canon k v) v

namespace UnitRecord

/-- A unit leaves a known entity alone that it does not declare. -/
theorem putView_foreign (hk : ¬ u.Declares canon k) (hv : v.kind ≠ "") : u.putView canon k v = v := by
  refine putView_keep (P := fun v' => v' = v) rfl fun r hr hkey v' hv' => ?_
  simp [EntityRecord.putView, within_of_not_declares hk hr hkey, hv', hv]

/-- What a unit says of an entity that it declares does not depend on what was said before. -/
theorem putView_congr (hk : u.Declares canon k) (v v' : EntityView) : u.putView canon k v = u.putView canon k v' := by
  obtain ⟨hrecords, hlists⟩ := hk
  obtain ⟨r₀, hr₀, hkey₀⟩ := records_iff.1 hrecords
  unfold putView
  rw [show k.within (u.sourceFiles.map canon) = true from hlists]
  generalize u.entities = rs at hr₀
  induction rs generalizing v v' with
  | nil => cases hr₀
  | cons r rs ih =>
    rw [List.foldl_cons, List.foldl_cons]
    by_cases hkey : r.key.stored canon = k
    · have hput : r.putView true u.indexFile v = r.putView true u.indexFile v' := by simp [EntityRecord.putView]
      rw [if_pos hkey, if_pos hkey, hput]
    · rw [if_neg hkey, if_neg hkey]
      refine ih v v' ((List.mem_cons.1 hr₀).resolve_left ?_)
      rintro rfl
      exact hkey hkey₀

/-- A unit describes an unknown entity that it records but does not declare. -/
theorem putView_unknown (hk : ¬ u.Declares canon k) (hrecords : u.Records canon k)
    (hkinds : ∀ r ∈ u.entities, r.kind ≠ "") (hv : v.kind = "") :
    ∃ r ∈ u.entities, r.key.stored canon = k ∧ u.putView canon k v = ⟨r.kind, r.flags, v.owner, v.dynamic⟩ := by
  have hdynamic : (u.putView canon k v).dynamic = v.dynamic := by
    refine putView_keep (P := fun v' => v'.dynamic = v.dynamic) rfl fun r hr hkey v' hv' => ?_
    unfold EntityRecord.putView
    split <;> simp [within_of_not_declares hk hr hkey, hv']
  have hknown := putView_known (v := v) hkinds (.inr hrecords)
  rcases @putView_origin canon k u v with ⟨hkind, -⟩ | ⟨w, hw, r, hr, hkey, hkind, hflags⟩
  · rw [hkind] at hknown
    exact absurd hv hknown
  · obtain rfl := List.mem_singleton.1 hw
    refine ⟨r, hr, hkey, ?_⟩
    rw [← hkind, ← hflags, ← putView_owner (v := v) hk, ← hdynamic]

end UnitRecord

namespace Independent

theorem perm (h : Independent canon us) (hp : us.Perm us') : Independent canon us' where
  valid u hu := h.valid u (hp.mem_iff.2 hu)
  distinct := (hp.map _).nodup_iff.1 h.distinct
  apart := (hp.pairwise_iff fun {_ _} hd path hw hu => hd path hu hw).1 h.apart
  known u hu := h.known u (hp.mem_iff.2 hu)
  agree u hu w hw r hr r' hr' hkey hk := by
    refine h.agree u (hp.mem_iff.2 hu) w (hp.mem_iff.2 hw) r hr r' hr' hkey ?_
    rintro ⟨x, hx, hdeclares⟩
    exact hk ⟨x, hp.mem_iff.1 hx, hdeclares⟩

/-- The cache of a writer spells the keys of references and relations, and these do not count. -/
theorem respelled (h : Independent canon us) : Independent canon (us.map (UnitRecord.respelled canon)) where
  valid u hu := by
    obtain ⟨v, hv, rfl⟩ := List.mem_map.1 hu
    exact UnitRecord.check_respelled (h.valid v hv)
  distinct := by
    rw [List.map_map]
    exact h.distinct
  apart := List.pairwise_map.2 h.apart
  known u hu := by
    obtain ⟨v, hv, rfl⟩ := List.mem_map.1 hu
    exact h.known v hv
  agree u hu w hw r hr r' hr' hkey hk := by
    obtain ⟨u, hu', rfl⟩ := List.mem_map.1 hu
    obtain ⟨w, hw', rfl⟩ := List.mem_map.1 hw
    refine h.agree u hu' w hw' r hr r' hr' hkey ?_
    rintro ⟨x, hx, hdeclares⟩
    exact hk ⟨x.respelled canon, List.mem_map.2 ⟨x, hx, rfl⟩, hdeclares⟩

/-- A declaration lies in the source files of one unit at most. -/
theorem eq_of_declares (h : Independent canon us) {w : UnitRecord} (hu : u ∈ us) (hw : w ∈ us)
    (hku : u.Declares canon k) (hkw : w.Declares canon k) : u = w := by
  by_contra hne
  have : Std.Symm fun u w : UnitRecord => ∀ path ∈ u.sourceFiles.map canon, path ∉ w.sourceFiles.map canon :=
    ⟨fun _ _ hd path hw hu => hd path hu hw⟩
  have hdisjoint := h.apart.forall hu hw hne
  obtain ⟨l, hl, hin⟩ := (Option.any_eq_true _ _).1 hku.2
  have hin' := hkw.2
  unfold UnitRecord.Lists EntityKey.within at hin'
  rw [hl, Option.any_some] at hin'
  exact hdisjoint _ (List.contains_iff_mem.1 hin) (List.contains_iff_mem.1 hin')

/-- Whatever the others say before and after it, the unit that declares an entity has the say. -/
theorem putViews_declared (h : Independent canon us) (hu : u ∈ us) (hk : u.Declares canon k) (v : EntityView) :
    putViews canon us k v = u.putView canon k .stub := by
  obtain ⟨before, after, rfl⟩ := List.append_of_mem hu
  have hafter : ∀ w ∈ after, ¬ w.Declares canon k := by
    intro w hw hdeclares
    obtain rfl := h.eq_of_declares hu (by simp [hw]) hk hdeclares
    have hdistinct := h.distinct
    rw [List.map_append, List.map_cons, List.nodup_append, List.nodup_cons] at hdistinct
    exact hdistinct.2.1.1 (List.mem_map_of_mem hw)
  have hkind : (u.putView canon k .stub).kind ≠ "" := UnitRecord.putView_known (h.known u hu) (.inr hk.1)
  unfold putViews
  rw [List.foldl_append, List.foldl_cons, UnitRecord.putView_congr hk _ .stub]
  generalize after = rest at hafter
  induction rest with
  | nil => rfl
  | cons w rest ih =>
    rw [List.foldl_cons, UnitRecord.putView_foreign (hafter w List.mem_cons_self) hkind]
    exact ih fun x hx => hafter x (List.mem_cons_of_mem _ hx)

/-- Two units commute on an entity that nobody declares: what they say of it is the same. -/
theorem putView_comm (h : Independent canon us) (hk : ¬ Declared canon us k) {w : UnitRecord} (hu : u ∈ us)
    (hw : w ∈ us) (v : EntityView) :
    w.putView canon k (u.putView canon k v) = u.putView canon k (w.putView canon k v) := by
  have hforeign : ∀ x ∈ us, ¬ x.Declares canon k := fun x hx hd => hk ⟨x, hx, hd⟩
  by_cases hv : v.kind = ""
  · by_cases hru : u.Records canon k
    · obtain ⟨r, hr, hkey, hput⟩ := UnitRecord.putView_unknown (hforeign u hu) hru (h.known u hu) hv
      have hkind : (u.putView canon k v).kind ≠ "" := UnitRecord.putView_known (h.known u hu) (.inr hru)
      rw [UnitRecord.putView_foreign (hforeign w hw) hkind]
      by_cases hrw : w.Records canon k
      · obtain ⟨r', hr', hkey', hput'⟩ := UnitRecord.putView_unknown (hforeign w hw) hrw (h.known w hw) hv
        have hkind' : (w.putView canon k v).kind ≠ "" := UnitRecord.putView_known (h.known w hw) (.inr hrw)
        obtain ⟨hsame, hflags⟩ := h.agree u hu w hw r hr r' hr' (hkey.trans hkey'.symm) (by rwa [hkey])
        rw [UnitRecord.putView_foreign (hforeign u hu) hkind', hput, hput', hsame, hflags]
      · rw [UnitRecord.putView_of_not_records hrw]
    · rw [UnitRecord.putView_of_not_records hru, UnitRecord.putView_of_not_records hru]
  · rw [UnitRecord.putView_foreign (hforeign u hu) hv, UnitRecord.putView_foreign (hforeign w hw) hv,
      UnitRecord.putView_foreign (hforeign u hu) hv]

theorem putViews_perm (h : Independent canon us) (hp : us.Perm us') (k : EntityKey) :
    putViews canon us' k .stub = putViews canon us k .stub := by
  -- two units need not commute on an entity that a third one declares, so that case goes by its owner
  by_cases hk : Declared canon us k
  · obtain ⟨u, hu, hdeclares⟩ := hk
    rw [h.putViews_declared hu hdeclares, (h.perm hp).putViews_declared (hp.mem_iff.1 hu) hdeclares]
  · exact (hp.foldl_eq' (fun u hu w hw v => h.putView_comm hk hu hw v) .stub).symm

end Independent

/-! ## Stores that some units have filled -/

theorem Store.Replaced.getD_view? (h : s.Replaced canon u t) (hk : ¬ s.Drops canon u k) :
    (t.view? k).getD .stub = u.putView canon k ((s.view? k).getD .stub) := by
  by_cases htouches : u.Touches canon k
  · rw [h.touched k hk htouches, Option.getD_some]
  · have hrecords : ¬ u.Records canon k := fun hr => htouches (UnitRecord.touches_iff.2 (.inl hr))
    rw [h.other k hk htouches, UnitRecord.putView_of_not_records hrecords]

theorem Grounded.getD_view? {all : List UnitRecord} (hall : Writable canon all) (k : EntityKey) :
    ∀ {us : List UnitRecord} {s : Store}, Grounded canon all s → s.Sound → (∀ u ∈ us, u ∈ all) →
    ((us.foldl (Store.replaceUnit canon) s).view? k).getD .stub = putViews canon us k ((s.view? k).getD .stub)
  | [], _, _, _, _ => rfl
  | u :: us, s, h, hs, hsub => by
    have hu := hsub u List.mem_cons_self
    have hreplaced := Store.replaceUnit_of_spelled hs (hall.valid u hu) (hall.spelled u hu)
    have hrest := Grounded.getD_view? hall k (h.replaceUnit hall.distinct hu hreplaced) hreplaced.sound
      fun w hw => hsub w (List.mem_cons_of_mem _ hw)
    rw [hreplaced.getD_view? (h.not_drops hall.distinct hu k)] at hrest
    exact hrest

/-- A fresh store into which some units have been written. -/
structure Filled (canon : String → String) (us : List UnitRecord) (s : Store) : Prop where
  rewritten : Rewritten canon us Store.fresh s
  tracks : Tracks canon us s
  views : ∀ k, (s.view? k).getD .stub = putViews canon us k .stub

theorem putViews_dynamic (canon : String → String) (us : List UnitRecord) (k : EntityKey) (hv : v.dynamic = false) :
    (putViews canon us k v).dynamic = false := by
  induction us generalizing v with
  | nil => exact hv
  | cons u us ih => exact ih (UnitRecord.putView_dynamic hv)

theorem Independent.filled (h : Independent canon us) (hspelled : ∀ u ∈ us, u.Spelled canon) :
    Filled canon us (us.foldl (Store.replaceUnit canon) Store.fresh) := by
  have hall : Writable canon us := ⟨h.distinct, h.valid, hspelled⟩
  have hfresh := Grounded.fresh canon us
  obtain ⟨hgrounded, hrewritten⟩ := hfresh.replaceAll hall Store.fresh_sound (List.Sublist.refl us)
  have hviews := fun k => hfresh.getD_view? hall k Store.fresh_sound fun u hu => hu
  refine ⟨hrewritten, ⟨hrewritten.sound, h.distinct, fun row hrow => ?_, fun u hu => ?_, fun u hu k hk => ?_, hgrounded,
    fun k v hv => ?_⟩, hviews⟩
  · obtain ⟨u, hu, hfile⟩ := (hrewritten.among h.distinct).units row hrow
    obtain ⟨id, hid⟩ := hrewritten.entered u hu
    obtain rfl := List.inj_on_of_nodup_map hrewritten.sound.indexFiles hrow hid hfile
    exact ⟨u, hu, rfl⟩
  · obtain ⟨id, hid⟩ := hrewritten.entered u hu
    exact ⟨_, hid, rfl⟩
  · obtain ⟨r, hr, -, hput⟩ := UnitRecord.putView_declares (v := .stub) hk
    have hview := hviews k
    rw [h.putViews_declared hu hk, hput] at hview
    have hkind := h.known u hu r hr
    -- a record of the unit has a kind, which a missing entity would not
    rcases hsome : (us.foldl (Store.replaceUnit canon) Store.fresh).view? k with _ | v
    · rw [hsome, Option.getD_none] at hview
      exact absurd (congrArg EntityView.kind hview).symm hkind
    · rw [hsome, Option.getD_some] at hview
      rw [hview]
      exact ⟨_, rfl, rfl, hkind⟩
  · have hview := hviews k
    rw [hv, Option.getD_some] at hview
    rw [hview]
    exact putViews_dynamic canon us k rfl

/-- A row whose packed attributes are those of a description. -/
def EntityRow.Packed (e : EntityRow) : Prop :=
  e.attributes = e.flags.packed

theorem EntityRow.packed_takeIn {e : EntityRow} (he : e.Packed) (entries : List Entry) : (e.takeIn entries).Packed := by
  induction entries generalizing e with
  | nil => exact he
  | cons x entries ih =>
    rw [takeIn_cons]
    apply ih
    unfold EntityRecord.put
    split
    · exact (congrArg EntityFlags.packed (EntityFlags.unpacked_packed x.record.flags)).symm
    · exact he

namespace Filled

theorem packed (h : Filled canon us s) {e : EntityRow} (he : e ∈ s.entities) : e.Packed := by
  have hrow : s.row? (s.keyOf e) = some e := (Store.row?_eq_some h.rewritten.sound).2 ⟨he, rfl⟩
  by_cases htouches : ∃ u ∈ us, u.Touches canon (s.keyOf e)
  · obtain ⟨ids, hids⟩ := h.rewritten.numbered
    obtain ⟨decl, id, hstub⟩ := h.rewritten.row ids hids _ htouches
    rw [hrow, Option.some.injEq] at hstub
    have hpacked : (Store.stub (s.keyOf e).name decl id).Packed :=
      (congrArg EntityFlags.packed (EntityFlags.unpacked_packed {})).symm
    rw [hstub]
    exact EntityRow.packed_takeIn hpacked _
  · have hnone := h.rewritten.other (s.keyOf e) fun u hu hk => htouches ⟨u, hu, hk⟩
    rw [hrow] at hnone
    cases hnone

theorem mem_files (h : Filled canon us s) {path : String} :
    path ∈ s.files.map SourceFile.path ↔ ∃ u ∈ us, path ∈ (u.trace canon).paths := by
  constructor
  · intro hpath
    obtain ⟨f, hf, rfl⟩ := List.mem_map.1 hpath
    obtain ⟨new, hnew, hasked⟩ := h.rewritten.files
    rw [hnew] at hf
    exact hasked f hf
  · rintro ⟨u, hu, hpath⟩
    exact h.rewritten.asked u hu path hpath

theorem mem_units (h : Filled canon us s) {x : String × Int × Option String × Bool} :
    x ∈ s.units.map UnitRow.reading ↔ ∃ u ∈ us, x = (u.indexFile, u.stamp, u.checksum, false) := by
  constructor
  · intro hx
    obtain ⟨row, hrow, rfl⟩ := List.mem_map.1 hx
    obtain ⟨u, hu, heq⟩ := h.tracks.units row hrow
    rw [heq]
    exact ⟨u, hu, rfl⟩
  · rintro ⟨u, hu, rfl⟩
    obtain ⟨id, hid⟩ := h.rewritten.entered u hu
    exact List.mem_map.2 ⟨_, hid, rfl⟩

theorem map_entityReading (h : Filled canon us s) : s.purgeOrphans.entities.map s.purgeOrphans.entityReading =
    (s.purgeOrphans.entities.map fun e => (s.purgeOrphans.keyOf e, s.purgeOrphans.view e)).map fun x =>
      (x.1, x.2, x.2.flags.packed) := by
  rw [List.map_map]
  apply List.map_congr_left
  intro e he
  have hpacked := h.packed (List.mem_of_mem_filter he)
  unfold Store.entityReading
  rw [hpacked]
  rfl

/-- Once orphans are purged, the entities are those that the units mention or declare, as the units
describe them. -/
theorem view?_purgeOrphans (h : Filled canon us s) :
    s.purgeOrphans.view? k = some v ↔ InUse canon us k ∧ putViews canon us k .stub = v := by
  rw [h.tracks.view?_purgeOrphans h.rewritten.holds, ← h.views k]
  constructor
  · rintro ⟨hv, hlive⟩
    exact ⟨hlive, by rw [hv, Option.getD_some]⟩
  · rintro ⟨hlive, rfl⟩
    obtain ⟨v, hv⟩ := h.tracks.view?_of_inUse h.rewritten.holds hlive
    exact ⟨by rw [hv, Option.getD_some], hlive⟩

end Filled

/-- Stores with the same views have the same entities. -/
theorem Store.perm_views (hs : s.Sound) (ht : t.Sound) (h : ∀ k v, s.view? k = some v ↔ t.view? k = some v) :
    (s.entities.map fun e => (s.keyOf e, s.view e)).Perm (t.entities.map fun e => (t.keyOf e, t.view e)) := by
  have hmem : ∀ {r : Store}, r.Sound → ∀ k v, (k, v) ∈ r.entities.map (fun e => (r.keyOf e, r.view e)) ↔
      r.view? k = some v := by
    intro r hr k v
    simp only [List.mem_map, Prod.mk.injEq, view?, Option.map_eq_some_iff, row?_eq_some hr, and_assoc]
  have hnodup : ∀ {r : Store}, r.Sound → (r.entities.map fun e => (r.keyOf e, r.view e)).Nodup := by
    intro r hr
    refine List.Nodup.of_map Prod.fst ?_
    rw [List.map_map]
    exact nodup_keyOf hr
  rw [List.perm_ext_iff_of_nodup (hnodup hs) (hnodup ht)]
  rintro ⟨k, v⟩
  rw [hmem hs, hmem ht, h]

/-! ## Two orders -/

namespace Filled

variable (hp : us.Perm us') (h : Filled canon us s) (h' : Filled canon us' t)

include hp h h'

theorem perm_units : (s.units.map UnitRow.reading).Perm (t.units.map UnitRow.reading) := by
  have hnodup : ∀ {r : Store}, r.Sound → (r.units.map UnitRow.reading).Nodup := by
    intro r hr
    refine List.Nodup.of_map Prod.fst ?_
    rw [List.map_map]
    exact hr.indexFiles
  rw [List.perm_ext_iff_of_nodup (hnodup h.rewritten.sound) (hnodup h'.rewritten.sound)]
  intro x
  simp only [h.mem_units, h'.mem_units, hp.mem_iff]

theorem perm_files : (s.files.map SourceFile.path).Perm (t.files.map SourceFile.path) := by
  rw [List.perm_ext_iff_of_nodup h.rewritten.sound.paths h'.rewritten.sound.paths]
  intro path
  simp only [h.mem_files, h'.mem_files, hp.mem_iff]

theorem perm_entities (hind : Independent canon us) :
    (s.purgeOrphans.entities.map s.purgeOrphans.entityReading).Perm
      (t.purgeOrphans.entities.map t.purgeOrphans.entityReading) := by
  rw [h.map_entityReading, h'.map_entityReading]
  refine (Store.perm_views (Store.purgeOrphans_sound h.rewritten.sound) (Store.purgeOrphans_sound h'.rewritten.sound)
    fun k v => ?_).map _
  rw [h.view?_purgeOrphans, h'.view?_purgeOrphans, hind.putViews_perm hp]
  simp only [InUse, Mentioned, Declared, hp.mem_iff]

/-- Stores that were filled in two orders read the same once orphans are purged. -/
theorem purgeOrphans_matches (hind : Independent canon us) : s.purgeOrphans.Matches t.purgeOrphans := by
  have hs := Store.purgeOrphans_sound h.rewritten.sound
  have ht := Store.purgeOrphans_sound h'.rewritten.sound
  have hamong : Among us s.purgeOrphans := ⟨hs, hind.distinct, h.tracks.among.units⟩
  have hamong' : Among us t.purgeOrphans := by
    refine ⟨ht, hind.distinct, fun row hrow => ?_⟩
    simp only [hp.mem_iff]
    exact h'.tracks.among.units row hrow
  have hholds : ∀ u ∈ us, s.purgeOrphans.Holds canon u := fun u hu =>
    (h.rewritten.holds u hu).purgeOrphans h.rewritten.sound
  have hholds' : ∀ u ∈ us, t.purgeOrphans.Holds canon u := fun u hu =>
    (h'.rewritten.holds u (hp.mem_iff.1 hu)).purgeOrphans h'.rewritten.sound
  have hunits := perm_units hp h h'
  have hfiles := perm_files hp h h'
  refine ⟨hunits, hfiles, perm_entities hp h h' hind, ?_, ?_, ?_, ?_, ?_⟩
  · exact hamong.perm_rows hamong' (fun r hr => (hs.references r hr).unit) (fun r hr => (ht.references r hr).unit)
      fun u hu => .of_eq ((hholds u hu).references.trans (hholds' u hu).references.symm)
  · exact hamong.perm_rows hamong' (fun r hr => (hs.relations r hr).unit) (fun r hr => (ht.relations r hr).unit)
      fun u hu => .of_eq ((hholds u hu).relations.trans (hholds' u hu).relations.symm)
  · exact hamong.perm_rows hamong' (fun d hd => (hs.dependencies d hd).unit) (fun d hd => (ht.dependencies d hd).unit)
      fun u hu => (hholds u hu).dependencies.trans (hholds' u hu).dependencies.symm
  · exact h'.rewritten.kinds.trans h.rewritten.kinds.symm
  · exact h'.rewritten.generation.trans h.rewritten.generation.symm

end Filled

/-- Units without defects are written one after the other. -/
theorem Store.foldlM_writeUnit (canon : String → String) : ∀ {us : List UnitRecord}, (∀ u ∈ us, u.check = .ok ()) →
    ∀ s, us.foldlM (Store.writeUnit canon) s = .ok (us.foldl (Store.replaceUnit canon) s)
  | [], _, _ => rfl
  | u :: us, h, s => by
    have hwrite : s.writeUnit canon u = .ok (s.replaceUnit canon u) := by
      unfold writeUnit
      rw [h u List.mem_cons_self]
    rw [List.foldlM_cons, hwrite]
    exact foldlM_writeUnit canon (fun v hv => h v (List.mem_cons_of_mem _ hv)) _

/-- Independent units can be written into a fresh store in any two orders, and purging orphans leaves the
same store in the end, up to its ids: one that has the rows of every unit, and in which every unit owns
what it declares. -/
theorem writeUnits_perm (canon : String → String) {us us' : List UnitRecord} (h : Independent canon us)
    (hp : us.Perm us') : ∃ s t, us.foldlM (Store.writeUnit canon) Store.fresh = .ok s ∧
      us'.foldlM (Store.writeUnit canon) Store.fresh = .ok t ∧
      (∃ ρ : Renaming, ρ.Renames s.purgeOrphans t.purgeOrphans) ∧
      ∀ u ∈ us, s.purgeOrphans.Holds canon (u.respelled canon) ∧
        ∀ k, u.Declares canon k → ∃ v, s.purgeOrphans.view? k = some v ∧ v.owner = some u.indexFile := by
  have hspelled : ∀ {us : List UnitRecord}, ∀ u ∈ us.map (UnitRecord.respelled canon), u.Spelled canon := by
    intro us u hu
    obtain ⟨w, -, rfl⟩ := List.mem_map.1 hu
    exact UnitRecord.respelled_spelled canon w
  have hfilled := h.respelled.filled hspelled
  have hfilled' := (h.perm hp).respelled.filled hspelled
  rw [foldl_respelled] at hfilled hfilled'
  have hs := hfilled.rewritten.sound
  have hsame := Filled.purgeOrphans_matches (hp.map _) hfilled hfilled' h.respelled
  refine ⟨_, _, Store.foldlM_writeUnit canon h.valid _, Store.foldlM_writeUnit canon (h.perm hp).valid _,
    ⟨_, hsame.renames (Store.purgeOrphans_sound hs) (Store.purgeOrphans_sound hfilled'.rewritten.sound)⟩,
      fun u hu => ?_⟩
  have hu' : u.respelled canon ∈ us.map (UnitRecord.respelled canon) := List.mem_map.2 ⟨u, hu, rfl⟩
  refine ⟨(hfilled.rewritten.holds _ hu').purgeOrphans hs, fun k hk => ?_⟩
  obtain ⟨v, hv, howner, -⟩ := hfilled.tracks.owns _ hu' k hk
  exact ⟨v, (hfilled.tracks.view?_purgeOrphans hfilled.rewritten.holds).2 ⟨hv, .inr ⟨_, hu', hk⟩⟩, howner⟩

namespace Sample

/-- A unit that refers to an entity of another one, and takes it for something else. -/
def mistaken : UnitRecord where
  indexFile := "b.ali"
  stamp := 1
  sourceFiles := ["b.adb"]
  entities := [predefined, ⟨"Count", "variable", some ⟨"a.ads", 1, 3⟩, {}⟩]
  references := [⟨predefined.key, ⟨"b.adb", 1, 5⟩, 'r', none⟩,
    ⟨declared.key, ⟨"b.adb", 2, 5⟩, 'r', some predefined.key⟩]
  dependencies := ["a.ads"]

/-- The entities that are left when some units are written and orphans are purged. -/
def leftOf (us : List UnitRecord) : Except Failure (List (Int × String × String)) :=
  (us.foldlM (Store.writeUnit Path.normalize) Store.fresh).map fun s =>
    s.purgeOrphans.entities.map fun e => (e.id, e.name, e.kind)

end Sample

open Sample in
/-- Ids follow the order, and the unit that declares the entity has the say in both. -/
theorem mistaken_perm :
    leftOf [recording 1 [declared, predefined], mistaken] = .ok [(1, "Count", "object"), (2, "Integer", "type")] ∧
      leftOf [mistaken, recording 1 [declared, predefined]] = .ok [(1, "Integer", "type"), (2, "Count", "object")] ∧
      ∃ s t,
        [recording 1 [declared, predefined], mistaken].foldlM (Store.writeUnit Path.normalize) Store.fresh = .ok s ∧
        [mistaken, recording 1 [declared, predefined]].foldlM (Store.writeUnit Path.normalize) Store.fresh = .ok t ∧
        ∃ ρ : Renaming, ρ.Renames s.purgeOrphans t.purgeOrphans := by
  have hind : Independent Path.normalize [recording 1 [declared, predefined], mistaken] := by decide +kernel
  obtain ⟨s, t, hs, ht, hsame, -⟩ := writeUnits_perm Path.normalize hind (.swap _ _ [])
  exact ⟨by decide +kernel, by decide +kernel, s, t, hs, ht, hsame⟩

end CrossIndex
