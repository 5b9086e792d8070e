/-
Writing units over a store that may hold them already. The row of an entity takes in the records of all
units, one after the other, and taking them in twice is taking them in once. As long as every owner is a
unit that declares what it owns, no write drops anything; what a run of such writes does to the tables is
said once (`Rewritten`), for one unit and, by composition, for any number of them.
-/
import CrossIndex.Proofs.Store.Extent
import CrossIndex.Proofs.Update.Underway

namespace CrossIndex

/-! ## Taking in records -/

/-- A record on its way into a row: whether its unit declares the entity, and the id of the unit. -/
structure Entry where
  own : Bool
  unit : Int
  record : EntityRecord

namespace EntityRow

/-- A row after some records. -/
def takeIn (e : EntityRow) (entries : List Entry) : EntityRow :=
  entries.foldl (fun e x => x.record.put x.own x.unit e) e

variable {e e' : EntityRow} {entries : List Entry}

theorem takeIn_cons (e : EntityRow) (x : Entry) (entries : List Entry) :
    e.takeIn (x :: entries) = (x.record.put x.own x.unit e).takeIn entries := rfl

theorem takeIn_append (e : EntityRow) (entries entries' : List Entry) :
    e.takeIn (entries ++ entries') = (e.takeIn entries).takeIn entries' :=
  List.foldl_append

theorem put_frame (r : EntityRecord) (own : Bool) (unit : Int) (e : EntityRow) :
    (r.put own unit e).id = e.id ∧ (r.put own unit e).name = e.name ∧ (r.put own unit e).decl = e.decl := by
  unfold EntityRecord.put
  split <;> exact ⟨rfl, rfl, rfl⟩

theorem takeIn_frame (e : EntityRow) (entries : List Entry) :
    (e.takeIn entries).id = e.id ∧ (e.takeIn entries).name = e.name ∧ (e.takeIn entries).decl = e.decl := by
  induction entries generalizing e with
  | nil => exact ⟨rfl, rfl, rfl⟩
  | cons x entries ih =>
    obtain ⟨h₁, h₂, h₃⟩ := ih (x.record.put x.own x.unit e)
    obtain ⟨g₁, g₂, g₃⟩ := put_frame x.record x.own x.unit e
    exact ⟨h₁.trans g₁, h₂.trans g₂, h₃.trans g₃⟩

/-- Once a unit has declared the entity, nothing counts that was said of it before. -/
theorem takeIn_congr_of_own (hown : ∃ x ∈ entries, x.own = true) (hid : e.id = e'.id) (hname : e.name = e'.name)
    (hdecl : e.decl = e'.decl) : e.takeIn entries = e'.takeIn entries := by
  induction entries generalizing e e' with
  | nil => simp at hown
  | cons x entries ih =>
    obtain ⟨h₁, h₂, h₃⟩ := put_frame x.record x.own x.unit e
    obtain ⟨g₁, g₂, g₃⟩ := put_frame x.record x.own x.unit e'
    -- the last own record decides: it is among the others, or it is the first
    by_cases hrest : ∃ y ∈ entries, y.own = true
    · exact ih hrest (by rw [h₁, g₁, hid]) (by rw [h₂, g₂, hname]) (by rw [h₃, g₃, hdecl])
    · have hx : x.own = true := by
        obtain ⟨y, hy, hyown⟩ := hown
        rcases List.mem_cons.1 hy with rfl | hy
        · exact hyown
        · exact absurd ⟨y, hy, hyown⟩ hrest
      have hput : x.record.put x.own x.unit e = x.record.put x.own x.unit e' := by
        simp [EntityRecord.put, EntityRecord.describe, hx, hid, hname, hdecl]
      rw [takeIn_cons, takeIn_cons, hput]

/-- Where no unit declares the entity, owner and dynamic mark stay. -/
theorem takeIn_foreign (hforeign : ∀ x ∈ entries, x.own = false) (e : EntityRow) :
    (e.takeIn entries).owner = e.owner ∧ (e.takeIn entries).dynamic = e.dynamic := by
  induction entries generalizing e with
  | nil => exact ⟨rfl, rfl⟩
  | cons x entries ih =>
    have hput : (x.record.put x.own x.unit e).owner = e.owner ∧ (x.record.put x.own x.unit e).dynamic = e.dynamic := by
      rw [hforeign x List.mem_cons_self]
      unfold EntityRecord.put
      split <;> simp [EntityRecord.describe]
    obtain ⟨h₁, h₂⟩ := ih (fun y hy => hforeign y (List.mem_cons_of_mem _ hy)) (x.record.put x.own x.unit e)
    exact ⟨h₁.trans hput.1, h₂.trans hput.2⟩

/-- A row without owner has had none, and no unit has declared the entity. -/
theorem takeIn_owner_eq_none (h : (e.takeIn entries).owner = none) : e.owner = none ∧ ∀ x ∈ entries, x.own = false := by
  induction entries generalizing e with
  | nil => exact ⟨h, fun _ hx => by cases hx⟩
  | cons x entries ih =>
    rw [takeIn_cons] at h
    obtain ⟨hput, hrest⟩ := ih h
    cases hx : x.own with
    | true => simp [EntityRecord.put, EntityRecord.describe, hx] at hput
    | false =>
      refine ⟨?_, List.forall_mem_cons.2 ⟨hx, hrest⟩⟩
      rw [hx] at hput
      unfold EntityRecord.put at hput
      split at hput
      · simpa [EntityRecord.describe] using hput
      · exact hput

/-- A row of a known kind takes nothing in from units that do not declare the entity. -/
theorem takeIn_known (hforeign : ∀ x ∈ entries, x.own = false) (hkind : e.kind.isEmpty = false) :
    e.takeIn entries = e := by
  induction entries with
  | nil => rfl
  | cons x entries ih =>
    have hput : x.record.put x.own x.unit e = e := by
      simp [EntityRecord.put, hforeign x List.mem_cons_self, hkind]
    rw [takeIn_cons, hput]
    exact ih fun y hy => hforeign y (List.mem_cons_of_mem _ hy)

/-- Taking in the same records once more changes nothing. -/
theorem takeIn_takeIn (e : EntityRow) (entries : List Entry) :
    (e.takeIn entries).takeIn entries = e.takeIn entries := by
  obtain ⟨hid, hname, hdecl⟩ := takeIn_frame e entries
  by_cases hown : ∃ x ∈ entries, x.own = true
  · exact takeIn_congr_of_own hown hid hname hdecl
  · have hforeign : ∀ x ∈ entries, x.own = false := by
      intro x hx
      cases hxo : x.own with
      | false => rfl
      | true => exact absurd ⟨x, hx, hxo⟩ hown
    obtain ⟨howner, hdynamic⟩ := takeIn_foreign hforeign e
    cases hkind : (e.takeIn entries).kind.isEmpty with
    | false => exact takeIn_known hforeign hkind
    | true =>
      cases entries with
      | nil => rfl
      | cons x entries =>
        -- no record had a kind, so the first one is taken in again, over the same row
        have hunknown : e.kind.isEmpty = true := by
          cases hk : e.kind.isEmpty with
          | true => rfl
          | false =>
            rw [takeIn_known hforeign hk, hk] at hkind
            cases hkind
        have hput : x.record.put x.own x.unit (e.takeIn (x :: entries)) = x.record.put x.own x.unit e := by
          simp [EntityRecord.put, EntityRecord.describe, hforeign x List.mem_cons_self, hunknown, hkind, hid, hname,
            hdecl, howner, hdynamic]
        rw [takeIn_cons (e.takeIn (x :: entries)), hput]
        rfl

end EntityRow

section Entries

variable (canon : String → String) (ids : String → Int) (us : List UnitRecord) (k : EntityKey)

/-- What a unit with an id records under a key. -/
def UnitRecord.entries (unit : Int) (u : UnitRecord) : List Entry :=
  (u.entities.filter fun r => r.key.stored canon = k).map fun r => ⟨k.within (u.sourceFiles.map canon), unit, r⟩

/-- What some units record under a key, where index files stand for ids. -/
def entriesOf : List Entry :=
  us.flatMap fun u => u.entries canon k (ids u.indexFile)

end Entries

variable {canon : String → String} {us us' : List UnitRecord} {u : UnitRecord} {k : EntityKey} {s t : Store}

theorem Writer.putAll_eq_takeIn (unit : Int) (e : EntityRow) :
    putAll canon (u.sourceFiles.map canon) unit u.entities k e = e.takeIn (u.entries canon k unit) := by
  unfold putAll EntityRow.takeIn UnitRecord.entries
  rw [List.foldl_map, List.foldl_filter]
  simp

theorem UnitRecord.entries_of_not_touches (h : ¬ u.Touches canon k) (unit : Int) : u.entries canon k unit = [] := by
  unfold entries
  rw [List.map_eq_nil_iff, List.filter_eq_nil_iff]
  intro r hr hk
  exact h (touches_iff.2 (.inl (records_iff.2 ⟨r, hr, by simpa using hk⟩)))

theorem entriesOf_of_not_touches (h : ∀ u ∈ us, ¬ u.Touches canon k) (ids : String → Int) :
    entriesOf canon ids us k = [] := by
  unfold entriesOf
  rw [List.flatMap_eq_nil_iff]
  exact fun u hu => UnitRecord.entries_of_not_touches (h u hu) _

/-! ## Writes that drop nothing -/

/-- Every owner is among some units and declares what it owns. -/
def Grounded (canon : String → String) (us : List UnitRecord) (s : Store) : Prop :=
  ∀ k v file, s.view? k = some v → v.owner = some file → ∃ u ∈ us, u.indexFile = file ∧ u.Declares canon k

theorem Grounded.fresh (canon : String → String) (us : List UnitRecord) : Grounded canon us Store.fresh := by
  intro k v file hv
  cases hv

theorem Grounded.not_drops (h : Grounded canon us s) (hd : (us.map UnitRecord.indexFile).Nodup) (hu : u ∈ us)
    (k : EntityKey) : ¬ s.Drops canon u k := by
  rintro ⟨⟨v, hv, ho⟩, hno⟩
  obtain ⟨u', hu', hfile, hrecords, hlists⟩ := h k v _ hv ho
  obtain rfl := List.inj_on_of_nodup_map hd hu' hu hfile
  exact hno ⟨UnitRecord.touches_iff.2 (.inl hrecords), hlists⟩

theorem Grounded.replaceUnit (h : Grounded canon us s) (hd : (us.map UnitRecord.indexFile).Nodup) (hu : u ∈ us)
    (hr : s.Replaced canon u t) : Grounded canon us t := by
  intro k v' file hv' ho'
  have hdrop := h.not_drops hd hu k
  by_cases hdeclares : u.Declares canon k
  · obtain ⟨-, v, -, rfl⟩ := hr.view_inv hv'
    obtain ⟨r, -, -, hput⟩ := UnitRecord.putView_declares (v := v) hdeclares
    rw [hput] at ho'
    exact ⟨u, hu, Option.some.inj ho', hdeclares⟩
  · obtain ⟨-, v, hv, rfl⟩ := hr.view_inv hv'
    rw [UnitRecord.putView_owner hdeclares] at ho'
    rcases hv with hv | rfl
    · exact h k v file hv ho'
    · cases ho'

namespace Store

theorem hasEntity_of_isMentioned (hs : s.Sound) {id : Int} (h : s.isMentioned id = true) : s.HasEntity id := by
  simp only [isMentioned, Bool.or_eq_true, List.any_eq_true, beq_iff_eq] at h
  rcases h with ⟨r, hr, rfl | hscope⟩ | ⟨r, hr, rfl | rfl⟩
  · exact (hs.references r hr).entity
  · exact (hs.references r hr).scope id hscope
  · exact (hs.relations r hr).source
  · exact (hs.relations r hr).target

/-- Deleting what no row mentions changes the entities only. -/
theorem deleteEntities_of_unmentioned {gone : Int → Bool} (h : ∀ id, s.isMentioned id = true → gone id = false) :
    s.deleteEntities gone = { s with entities := s.entities.filter fun e => !gone e.id } := by
  have hreference : ∀ r ∈ s.references, ∀ id, r.entity = id ∨ r.scope = some id → gone id = false := by
    intro r hr id hid
    apply h
    simp only [isMentioned, Bool.or_eq_true, List.any_eq_true, beq_iff_eq]
    exact .inl ⟨r, hr, hid⟩
  have hrelation : ∀ r ∈ s.relations, ∀ id, r.source = id ∨ r.target = id → gone id = false := by
    intro r hr id hid
    apply h
    simp only [isMentioned, Bool.or_eq_true, List.any_eq_true, beq_iff_eq]
    exact .inr ⟨r, hr, hid⟩
  have hreferences : (s.references.filter fun r => !gone r.entity) = s.references := by
    rw [List.filter_eq_self]
    intro r hr
    simp [hreference r hr r.entity (.inl rfl)]
  have hscopes : (s.references.map fun r => if r.scope.any gone then { r with scope := none } else r) =
      s.references := by
    refine (List.map_congr_left fun r hr => ?_).trans (List.map_id _)
    have hscope : r.scope.any gone = false := by
      cases hsc : r.scope with
      | none => rfl
      | some id => exact hreference r hr id (.inr hsc)
    simp [hscope]
  have hrelations : (s.relations.filter fun r => !(gone r.source || gone r.target)) = s.relations := by
    rw [List.filter_eq_self]
    intro r hr
    simp [hrelation r hr r.source (.inl rfl), hrelation r hr r.target (.inr rfl)]
  unfold deleteEntities
  rw [hreferences, hscopes, hrelations]

/-- The row of a unit that is entered as it is stored stays. -/
theorem enterUnit_units (hs : s.Sound) (h : ∃ id, ⟨id, u.indexFile, u.stamp, u.checksum, false⟩ ∈ s.units) :
    (s.enterUnit u).2.units = s.units := by
  obtain ⟨id, hid⟩ := h
  have hrow : s.unit? u.indexFile = some ⟨id, u.indexFile, u.stamp, u.checksum, false⟩ :=
    (unit?_eq_some hs.toDistinct).2 ⟨hid, rfl⟩
  unfold enterUnit
  simp only [hrow]
  refine (List.map_congr_left fun row hr => ?_).trans (List.map_id _)
  split
  · rename_i heq
    obtain rfl := List.inj_on_of_nodup_map hs.unitIds hr hid (beq_iff_eq.1 heq)
    rfl
  · rfl

end Store

/-- Writing a unit that is among the owners writes its rows and deletes nothing. -/
theorem Grounded.replaceUnit_eq (h : Grounded canon us s) (hs : s.Sound) (hd : (us.map UnitRecord.indexFile).Nodup)
    (hu : u ∈ us) (hcheck : u.check = .ok ()) (hspelled : u.Spelled canon) :
    s.replaceUnit canon u = (s.drafted canon u).store := by
  have d := (Writer.drafted_of_spelled hs hcheck).2.2 hspelled
  have hgone : ∀ id, (s.drafted canon u).store.HasEntity id →
      ((s.drafted canon u).owned.contains id && !(s.drafted canon u).kept.contains id) = false := by
    rintro id ⟨e, he, rfl⟩
    have hrow := (Store.row?_eq_some d.sound.store).2 ⟨he, rfl⟩
    rw [← Bool.not_eq_true]
    exact mt (Store.drafted_gone hs d hrow).1 (h.not_drops hd hu _)
  have hentities : ((s.drafted canon u).store.entities.filter fun e =>
      !((s.drafted canon u).owned.contains e.id && !(s.drafted canon u).kept.contains e.id)) =
      (s.drafted canon u).store.entities := by
    rw [List.filter_eq_self]
    intro e he
    rw [hgone e.id ⟨e, he, rfl⟩]
    rfl
  unfold Store.replaceUnit Writer.finish
  rw [Store.deleteEntities_of_unmentioned fun id hid => hgone id (Store.hasEntity_of_isMentioned d.sound.store hid),
    hentities]

/-! ## What a run of writes does -/

/-- A store after some units have been written into another one and nothing was dropped. -/
structure Rewritten (canon : String → String) (us : List UnitRecord) (s t : Store) : Prop where
  sound : t.Sound
  grows : s.Grows t
  ids : s.entities.map EntityRow.id <+: t.entities.map EntityRow.id
  row : ∀ ids : String → Int, (∀ u ∈ us, t.indexFileAt? (ids u.indexFile) = some u.indexFile) →
    ∀ k, (∃ u ∈ us, u.Touches canon k) → ∃ decl id, t.row? k =
      some (((s.row? k).getD (Store.stub k.name decl id)).takeIn (entriesOf canon ids us k))
  other : ∀ k, (∀ u ∈ us, ¬ u.Touches canon k) → t.row? k = s.row? k
  entered : ∀ u ∈ us, ∃ id, ⟨id, u.indexFile, u.stamp, u.checksum, false⟩ ∈ t.units
  stays : ∀ row : UnitRow, row.indexFile ∉ us.map UnitRecord.indexFile → (row ∈ t.units ↔ row ∈ s.units)
  units : (∀ u ∈ us, ∃ id, ⟨id, u.indexFile, u.stamp, u.checksum, false⟩ ∈ s.units) → t.units = s.units
  holds : ∀ u ∈ us, t.Holds canon u
  others : ∀ u, u.indexFile ∉ us.map UnitRecord.indexFile → s.Holds canon u → t.Holds canon u
  files : ∃ new, t.files = s.files ++ new ∧ ∀ f ∈ new, ∃ u ∈ us, f.path ∈ (u.trace canon).paths
  asked : ∀ u ∈ us, ∀ path ∈ (u.trace canon).paths, path ∈ t.files.map SourceFile.path
  kinds : t.kinds = s.kinds
  generation : t.generation = s.generation

namespace Rewritten

theorem refl (canon : String → String) (hs : s.Sound) : Rewritten canon [] s s where
  sound := hs
  grows := .refl s
  ids := List.prefix_refl _
  row _ _ k h := by
    obtain ⟨u, hu, -⟩ := h
    cases hu
  other _ _ := rfl
  entered _ h := by cases h
  stays _ _ := Iff.rfl
  units _ := rfl
  holds _ h := by cases h
  others _ _ h := h
  files := ⟨[], (List.append_nil _).symm, fun _ h => by cases h⟩
  asked _ h := by cases h
  kinds := rfl
  generation := rfl

/-- Writing one unit, before anything is deleted. -/
theorem drafted (hs : s.Sound) (hcheck : u.check = .ok ()) (hspelled : u.Spelled canon) :
    Rewritten canon [u] s (s.drafted canon u).store := by
  have d := (Writer.drafted_of_spelled hs hcheck).2.2 hspelled
  have hunits : ∀ row, row ∈ (s.drafted canon u).store.units ↔
      row = ⟨(s.drafted canon u).unit, u.indexFile, u.stamp, u.checksum, false⟩ ∨
        (row ∈ s.units ∧ row.indexFile ≠ u.indexFile) := by
    intro row
    rw [d.units, d.unit]
    exact Store.mem_enterUnit hs u
  obtain ⟨⟨new, hnew, hpaths⟩, hids, hkinds, hgeneration⟩ := Store.drafted_extent canon s u
  refine ⟨d.sound.store, d.grows, hids, fun ids hat k hk => ?_, fun k hk => ?_, fun v hv => ?_, fun row hrow => ?_,
    fun h => ?_, fun v hv => ?_, fun v hv h => ?_, ⟨new, hnew, fun f hf => ?_⟩, fun v hv path hp => ?_, hkinds,
    hgeneration⟩
  · obtain ⟨v, hv, hk⟩ := hk
    obtain rfl := List.mem_singleton.1 hv
    obtain ⟨decl, id, hrow⟩ := d.row k hk
    have hunit : ids v.indexFile = (s.drafted canon v).unit :=
      Store.indexFileAt?_inj d.sound.store (hat v hv) (Store.drafted_indexFileAt? hs d)
    refine ⟨decl, id, ?_⟩
    rw [hrow, Writer.putAll_eq_takeIn, entriesOf, List.flatMap_singleton, hunit]
  · exact d.other k (hk u (List.mem_singleton_self u))
  · obtain rfl := List.mem_singleton.1 hv
    exact ⟨_, (hunits _).2 (.inl rfl)⟩
  · have hne : row.indexFile ≠ u.indexFile := by simpa using hrow
    rw [hunits]
    constructor
    · rintro (rfl | ⟨h, -⟩)
      · exact absurd rfl hne
      · exact h
    · exact fun h => .inr ⟨h, hne⟩
  · rw [d.units]
    exact Store.enterUnit_units hs (h u (List.mem_singleton_self u))
  · obtain rfl := List.mem_singleton.1 hv
    exact Store.drafted_holds hs d
  · exact Store.drafted_holds_other hs d h (by simpa using hv)
  · exact ⟨u, List.mem_singleton_self u, hpaths f hf⟩
  · obtain rfl := List.mem_singleton.1 hv
    rw [← Writer.trace_drafted canon s v] at hp
    obtain ⟨⟨p, id⟩, hentry, rfl⟩ := List.mem_map.1 hp
    exact List.mem_map.2 ⟨_, d.sound.paths p id hentry, rfl⟩

/-- The units that have been written keep their ids. -/
theorem indexFileAt?_of_grows {r : Store} (h : Rewritten canon us s t) (hg : t.Grows r) (hr : r.Sound)
    {ids : String → Int}
    (hids : ∀ u ∈ us, r.indexFileAt? (ids u.indexFile) = some u.indexFile) :
    ∀ u ∈ us, t.indexFileAt? (ids u.indexFile) = some u.indexFile := by
  intro u hu
  obtain ⟨id, hrow⟩ := h.entered u hu
  have hat : t.indexFileAt? id = some u.indexFile := (Store.indexFileAt?_eq_some h.sound).2 ⟨_, hrow, rfl, rfl⟩
  have hat' : r.indexFileAt? id = some u.indexFile := by rw [hg.indexFileAt? h.sound hr ⟨_, hrow, rfl⟩, hat]
  rw [Store.indexFileAt?_inj hr (hids u hu) hat']
  exact hat

theorem trans {r : Store} (h : Rewritten canon us s t) (h' : Rewritten canon us' t r)
    (hd : ∀ u ∈ us, u.indexFile ∉ us'.map UnitRecord.indexFile) : Rewritten canon (us ++ us') s r := by
  obtain ⟨new, hnew, hpaths⟩ := h.files
  obtain ⟨new', hnew', hpaths'⟩ := h'.files
  refine ⟨h'.sound, h.grows.trans h'.grows, h.ids.trans h'.ids, fun ids hids k hk => ?_, fun k hk => ?_, fun u hu => ?_,
    fun row hrow => ?_, fun hall => ?_, fun u hu => ?_, fun u hu hholds => ?_, ⟨new ++ new', ?_, fun f hf => ?_⟩,
    fun u hu path hp => ?_, h'.kinds.trans h.kinds, h'.generation.trans h.generation⟩
  · have hids' := h.indexFileAt?_of_grows h'.grows h'.sound fun u hu => hids u (List.mem_append_left _ hu)
    have hlate : ∀ u ∈ us', r.indexFileAt? (ids u.indexFile) = some u.indexFile := fun u hu =>
      hids u (List.mem_append_right _ hu)
    rw [show entriesOf canon ids (us ++ us') k = entriesOf canon ids us k ++ entriesOf canon ids us' k from
      List.flatMap_append]
    -- a list of units that does not touch the key leaves its row and has no entries for it
    by_cases htouch : ∃ u ∈ us, u.Touches canon k
    · obtain ⟨decl, id, hrow⟩ := h.row ids hids' k htouch
      refine ⟨decl, id, ?_⟩
      rw [EntityRow.takeIn_append]
      by_cases htouch' : ∃ u ∈ us', u.Touches canon k
      · obtain ⟨decl', id', hrow'⟩ := h'.row ids hlate k htouch'
        rw [hrow', hrow, Option.getD_some]
      · have hno : ∀ u ∈ us', ¬ u.Touches canon k := fun u hu ht => htouch' ⟨u, hu, ht⟩
        rw [h'.other k hno, hrow, entriesOf_of_not_touches hno]
        rfl
    · have hno : ∀ u ∈ us, ¬ u.Touches canon k := fun u hu ht => htouch ⟨u, hu, ht⟩
      have htouch' : ∃ u ∈ us', u.Touches canon k := by
        obtain ⟨u, hu, ht⟩ := hk
        rcases List.mem_append.1 hu with hu | hu
        · exact absurd ht (hno u hu)
        · exact ⟨u, hu, ht⟩
      obtain ⟨decl', id', hrow'⟩ := h'.row ids hlate k htouch'
      refine ⟨decl', id', ?_⟩
      rw [hrow', h.other k hno, entriesOf_of_not_touches hno, List.nil_append]
  · rw [h'.other k fun u hu => hk u (List.mem_append_right _ hu),
      h.other k fun u hu => hk u (List.mem_append_left _ hu)]
  · rcases List.mem_append.1 hu with hu | hu
    · obtain ⟨id, hid⟩ := h.entered u hu
      exact ⟨id, (h'.stays ⟨id, u.indexFile, u.stamp, u.checksum, false⟩ (hd u hu)).2 hid⟩
    · exact h'.entered u hu
  · rw [List.map_append, List.mem_append, not_or] at hrow
    rw [h'.stays row hrow.2, h.stays row hrow.1]
  · have hunits : t.units = s.units := h.units fun u hu => hall u (List.mem_append_left _ hu)
    rw [← hunits]
    apply h'.units
    intro u hu
    rw [hunits]
    exact hall u (List.mem_append_right _ hu)
  · rcases List.mem_append.1 hu with hu | hu
    · exact h'.others u (hd u hu) (h.holds u hu)
    · exact h'.holds u hu
  · rw [List.map_append, List.mem_append, not_or] at hu
    exact h'.others u hu.2 (h.others u hu.1 hholds)
  · rw [hnew', hnew, List.append_assoc]
  · rcases List.mem_append.1 hf with hf | hf
    · obtain ⟨u, hu, hp⟩ := hpaths f hf
      exact ⟨u, List.mem_append_left _ hu, hp⟩
    · obtain ⟨u, hu, hp⟩ := hpaths' f hf
      exact ⟨u, List.mem_append_right _ hu, hp⟩
  · rcases List.mem_append.1 hu with hu | hu
    · obtain ⟨f, hf, hpath⟩ := List.mem_map.1 (h.asked u hu path hp)
      exact List.mem_map.2 ⟨f, h'.grows.files f hf, hpath⟩
    · exact h'.asked u hu path hp

/-- Index files stand for the ids of the units. -/
theorem numbered (h : Rewritten canon us s t) :
    ∃ ids : String → Int, ∀ u ∈ us, t.indexFileAt? (ids u.indexFile) = some u.indexFile := by
  refine ⟨fun file => ((t.unit? file).map UnitRow.id).getD 0, fun u hu => ?_⟩
  obtain ⟨id, hid⟩ := h.entered u hu
  have hunit : t.unit? u.indexFile = some ⟨id, u.indexFile, u.stamp, u.checksum, false⟩ :=
    (Store.unit?_eq_some h.sound.toDistinct).2 ⟨hid, rfl⟩
  simp only [hunit, Option.map_some, Option.getD_some]
  exact (Store.indexFileAt?_eq_some h.sound).2 ⟨_, hid, rfl, rfl⟩

/-- Written into a fresh store, the units are the only ones there. -/
theorem among (h : Rewritten canon us Store.fresh t) (hd : (us.map UnitRecord.indexFile).Nodup) : Among us t := by
  refine ⟨h.sound, hd, fun row hrow => ?_⟩
  by_contra hno
  have hfile : row.indexFile ∉ us.map UnitRecord.indexFile := by
    intro hmem
    obtain ⟨u, hu, hf⟩ := List.mem_map.1 hmem
    exact hno ⟨u, hu, hf.symm⟩
  exact List.not_mem_nil ((h.stays row hfile).1 hrow)

end Rewritten

/-- Units that can be written: no two share an index file, they have no defects, and their keys are stored
as the cache of a writer finds them. -/
structure Writable (canon : String → String) (us : List UnitRecord) : Prop where
  distinct : (us.map UnitRecord.indexFile).Nodup
  valid : ∀ u ∈ us, u.check = .ok ()
  spelled : ∀ u ∈ us, u.Spelled canon

/-- Writing some of the units, each of which declares what it owns. -/
theorem Grounded.replaceAll {all : List UnitRecord} (hall : Writable canon all) : ∀ {us : List UnitRecord} {s : Store},
    Grounded canon all s → s.Sound → us.Sublist all →
    Grounded canon all (us.foldl (Store.replaceUnit canon) s) ∧
      Rewritten canon us s (us.foldl (Store.replaceUnit canon) s)
  | [], s, h, hs, _ => ⟨h, .refl canon hs⟩
  | u :: us, s, h, hs, hsub => by
    have hu : u ∈ all := hsub.subset List.mem_cons_self
    have hreplaced := Store.replaceUnit_of_spelled hs (hall.valid u hu) (hall.spelled u hu)
    have hfirst := Rewritten.drafted hs (hall.valid u hu) (hall.spelled u hu)
    rw [← h.replaceUnit_eq hs hall.distinct hu (hall.valid u hu) (hall.spelled u hu)] at hfirst
    obtain ⟨hgrounded, hrest⟩ := Grounded.replaceAll hall (h.replaceUnit hall.distinct hu hreplaced) hfirst.sound
      ((List.sublist_cons_self u us).trans hsub)
    have hnodup : (u.indexFile :: us.map UnitRecord.indexFile).Nodup := hall.distinct.sublist (hsub.map _)
    refine ⟨hgrounded, hfirst.trans hrest fun v hv => ?_⟩
    obtain rfl := List.mem_singleton.1 hv
    exact (List.nodup_cons.1 hnodup).1

end CrossIndex
