/-
The invariant of stores: every row points at rows that are there (`Linked`), and no two rows share
an id or a key (`Distinct`). Deletions keep it because they take along what points at a deleted row;
the additions and changes of single rows out of which a write is made keep it too.
-/
import CrossIndex.Record.Check
import CrossIndex.Store.Ingest
import Mathlib.Data.List.Nodup

namespace CrossIndex

/-! ## Definitions -/

namespace Store

/-- A unit with an id is there. -/
def HasUnit (s : Store) (id : Int) : Prop := ∃ u ∈ s.units, u.id = id

/-- A file with an id is there. -/
def HasFile (s : Store) (id : Int) : Prop := ∃ f ∈ s.files, f.id = id

/-- An entity with an id is there. -/
def HasEntity (s : Store) (id : Int) : Prop := ∃ e ∈ s.entities, e.id = id

end Store

/-- An entity row whose links hold: it has a name; its declaration lies in a known file at a
position that starts at 1; an owner is a known unit, and owns only declared entities that were not
inserted explicitly. -/
structure EntityRow.Linked (s : Store) (e : EntityRow) : Prop where
  name : e.name ≠ ""
  decl : ∀ p, e.decl = some p → s.HasFile p.file ∧ 1 ≤ p.line ∧ 1 ≤ p.column
  owner : ∀ unit, e.owner = some unit → s.HasUnit unit ∧ e.decl.isSome ∧ e.dynamic = false

/-- A reference row whose links hold. -/
structure ReferenceRow.Linked (s : Store) (r : ReferenceRow) : Prop where
  entity : s.HasEntity r.entity
  file : s.HasFile r.file
  unit : s.HasUnit r.unit
  scope : ∀ id, r.scope = some id → s.HasEntity id
  line : 1 ≤ r.line
  column : 1 ≤ r.column

/-- A relation row whose links hold. -/
structure RelationRow.Linked (s : Store) (r : RelationRow) : Prop where
  source : s.HasEntity r.source
  target : s.HasEntity r.target
  unit : s.HasUnit r.unit

/-- A dependency row whose links hold; no file depends on itself. -/
structure DependencyRow.Linked (s : Store) (d : DependencyRow) : Prop where
  source : s.HasFile d.source
  target : s.HasFile d.target
  distinct : d.source ≠ d.target
  unit : s.HasUnit d.unit

namespace Store

/-- Every row points at rows that are there. -/
structure Linked (s : Store) : Prop where
  entities : ∀ e ∈ s.entities, e.Linked s
  references : ∀ r ∈ s.references, r.Linked s
  relations : ∀ r ∈ s.relations, r.Linked s
  dependencies : ∀ d ∈ s.dependencies, d.Linked s

/-- No two rows share an id, an index file, a path, or a name with a declaration place. -/
structure Distinct (s : Store) : Prop where
  unitIds : (s.units.map UnitRow.id).Nodup
  indexFiles : (s.units.map UnitRow.indexFile).Nodup
  fileIds : (s.files.map SourceFile.id).Nodup
  paths : (s.files.map SourceFile.path).Nodup
  entityIds : (s.entities.map EntityRow.id).Nodup
  entityKeys : (s.entities.map fun e => (e.name, e.decl)).Nodup

/-- The invariant of stores. -/
structure Sound (s : Store) : Prop extends Linked s, Distinct s

/-- How a store grows while a unit is written: no unit, file or entity goes, and an entity keeps its
id, name and declaration place. -/
structure Grows (s t : Store) : Prop where
  units : ∀ u ∈ s.units, ∃ u' ∈ t.units, u'.id = u.id ∧ u'.indexFile = u.indexFile
  files : ∀ f ∈ s.files, f ∈ t.files
  entities : ∀ e ∈ s.entities, ∃ e' ∈ t.entities, e'.id = e.id ∧ e'.name = e.name ∧ e'.decl = e.decl

end Store

/-! ## Links survive where nothing is taken away -/

namespace Store

theorem Grows.refl (s : Store) : s.Grows s :=
  ⟨fun u hu => ⟨u, hu, rfl, rfl⟩, fun _ hf => hf, fun e he => ⟨e, he, rfl, rfl, rfl⟩⟩

theorem Grows.of_eq {s t : Store} (hu : t.units = s.units) (hf : t.files = s.files) (he : t.entities = s.entities) :
    s.Grows t := by
  refine ⟨fun u h => ⟨u, hu ▸ h, rfl, rfl⟩, fun f h => hf ▸ h, fun e h => ⟨e, he ▸ h, rfl, rfl, rfl⟩⟩

theorem Grows.trans {a b c : Store} (h1 : a.Grows b) (h2 : b.Grows c) : a.Grows c := by
  refine ⟨fun u hu => ?_, fun f hf => h2.files f (h1.files f hf), fun e he => ?_⟩
  · obtain ⟨u', hu', e1, e2⟩ := h1.units u hu
    obtain ⟨u'', hu'', e3, e4⟩ := h2.units u' hu'
    exact ⟨u'', hu'', e3.trans e1, e4.trans e2⟩
  · obtain ⟨e', he', e1, e2, e3⟩ := h1.entities e he
    obtain ⟨e'', he'', e4, e5, e6⟩ := h2.entities e' he'
    exact ⟨e'', he'', e4.trans e1, e5.trans e2, e6.trans e3⟩

theorem Grows.hasUnit {s t : Store} (h : s.Grows t) {id : Int} : s.HasUnit id → t.HasUnit id := by
  rintro ⟨u, hu, rfl⟩
  obtain ⟨u', hu', e1, -⟩ := h.units u hu
  exact ⟨u', hu', e1⟩

theorem Grows.hasFile {s t : Store} (h : s.Grows t) {id : Int} : s.HasFile id → t.HasFile id := by
  rintro ⟨f, hf, rfl⟩
  exact ⟨f, h.files f hf, rfl⟩

theorem Grows.hasEntity {s t : Store} (h : s.Grows t) {id : Int} : s.HasEntity id → t.HasEntity id := by
  rintro ⟨e, he, rfl⟩
  obtain ⟨e', he', e1, -⟩ := h.entities e he
  exact ⟨e', he', e1⟩

end Store

theorem EntityRow.Linked.mono {s t : Store} {e : EntityRow} (h : e.Linked s) (hu : ∀ id, s.HasUnit id → t.HasUnit id)
    (hf : ∀ id, s.HasFile id → t.HasFile id) : e.Linked t := by
  refine ⟨h.name, fun p hp => ?_, fun unit ho => ?_⟩
  · obtain ⟨h1, h2⟩ := h.decl p hp; exact ⟨hf _ h1, h2⟩
  · obtain ⟨h1, h2⟩ := h.owner unit ho; exact ⟨hu _ h1, h2⟩

theorem ReferenceRow.Linked.mono {s t : Store} {r : ReferenceRow} (h : r.Linked s) (hg : s.Grows t) : r.Linked t :=
  ⟨hg.hasEntity h.entity, hg.hasFile h.file, hg.hasUnit h.unit, fun id hs => hg.hasEntity (h.scope id hs), h.line,
    h.column⟩

theorem RelationRow.Linked.mono {s t : Store} {r : RelationRow} (h : r.Linked s) (hg : s.Grows t) : r.Linked t :=
  ⟨hg.hasEntity h.source, hg.hasEntity h.target, hg.hasUnit h.unit⟩

theorem DependencyRow.Linked.mono {s t : Store} {d : DependencyRow} (h : d.Linked s)
    (hu : ∀ id, s.HasUnit id → t.HasUnit id) (hf : ∀ id, s.HasFile id → t.HasFile id) : d.Linked t :=
  ⟨hf _ h.source, hf _ h.target, h.distinct, hu _ h.unit⟩

namespace Store

/-! ## New ids -/

theorem le_foldl_max : ∀ (ids : List Int) (start : Int),
    start ≤ ids.foldl max start ∧ ∀ id ∈ ids, id ≤ ids.foldl max start
  | [], start => by simp
  | first :: rest, start => by
    obtain ⟨h1, h2⟩ := le_foldl_max rest (max start first)
    rw [List.foldl_cons]
    refine ⟨by omega, fun id hid => ?_⟩
    rcases List.mem_cons.1 hid with rfl | hid
    · omega
    · exact h2 id hid

/-- The next id is none of those in use. -/
theorem nextId_notMem (ids : List Int) : nextId ids ∉ ids := by
  intro h
  have := (le_foldl_max ids 0).2 _ h
  unfold nextId at this
  omega

/-- Keys stay distinct when an element with a new key comes last. -/
theorem nodup_map_concat {α κ : Type} {key : α → κ} {l : List α} {a : α} (h : (l.map key).Nodup)
    (ha : key a ∉ l.map key) : ((l ++ [a]).map key).Nodup := by
  rw [List.map_append, List.nodup_append]
  refine ⟨h, List.nodup_singleton _, fun x hx y hy hxy => ?_⟩
  rw [List.map_singleton, List.mem_singleton] at hy
  subst hy hxy
  exact ha hx

/-- A change that keeps the keys of elements keeps the keys of a list. -/
theorem map_map_key {α κ : Type} {key : α → κ} {change : α → α} (h : ∀ a, key (change a) = key a) (l : List α) :
    (l.map change).map key = l.map key := by
  rw [List.map_map]
  exact List.map_congr_left fun a _ => h a

/-! ## Looking rows up -/

/-- In a list without repeated keys, a search by key finds exactly the element with that key. -/
theorem find?_key_eq_some {α κ : Type} [BEq κ] [LawfulBEq κ] {key : α → κ} {l : List α} (hn : (l.map key).Nodup)
    {k : κ} {a : α} : l.find? (fun x => key x == k) = some a ↔ a ∈ l ∧ key a = k := by
  constructor
  · intro h
    exact ⟨List.mem_of_find?_eq_some h, by simpa using List.find?_some h⟩
  · rintro ⟨ha, rfl⟩
    rcases hf : l.find? (fun x => key x == key a) with _ | b
    · rw [List.find?_eq_none] at hf
      exact absurd (hf a ha) (by simp)
    · have hb : key b = key a := by simpa using List.find?_some hf
      rw [List.inj_on_of_nodup_map hn (List.mem_of_find?_eq_some hf) ha hb]

/-- In a list without repeated keys, the elements with the key of one of them are that one. -/
theorem filter_key_eq_singleton {α κ : Type} [BEq κ] [LawfulBEq κ] {key : α → κ} {l : List α} (hn : (l.map key).Nodup)
    {a : α} (ha : a ∈ l) : l.filter (fun x => key x == key a) = [a] := by
  obtain ⟨front, back, rfl⟩ := List.append_of_mem ha
  rw [List.map_append, List.map_cons, List.nodup_middle, List.nodup_cons, ← List.map_append] at hn
  have hother : ∀ b ∈ front ++ back, ¬ (key b == key a) = true := fun b hb he =>
    hn.1 (List.mem_map.2 ⟨b, hb, beq_iff_eq.1 he⟩)
  have hfront := List.filter_eq_nil_iff.2 fun b hb => hother b (List.mem_append_left back hb)
  have hback := List.filter_eq_nil_iff.2 fun b hb => hother b (List.mem_append_right front hb)
  rw [List.filter_append, List.filter_cons, hfront, hback, if_pos (beq_self_eq_true (key a)), List.nil_append]

theorem unit?_eq_some {s : Store} (hd : s.Distinct) {indexFile : String} {u : UnitRow} :
    s.unit? indexFile = some u ↔ u ∈ s.units ∧ u.indexFile = indexFile :=
  find?_key_eq_some hd.indexFiles

theorem file?_eq_some {s : Store} (hd : s.Distinct) {id : Int} {f : SourceFile} :
    s.file? id = some f ↔ f ∈ s.files ∧ f.id = id :=
  find?_key_eq_some hd.fileIds

theorem fileAt?_eq_some {s : Store} (hd : s.Distinct) {path : String} {f : SourceFile} :
    s.fileAt? path = some f ↔ f ∈ s.files ∧ f.path = path :=
  find?_key_eq_some hd.paths

theorem entity?_eq_some {s : Store} (hd : s.Distinct) {id : Int} {e : EntityRow} :
    s.entity? id = some e ↔ e ∈ s.entities ∧ e.id = id :=
  find?_key_eq_some hd.entityIds

theorem entityAt?_eq_some {s : Store} (hd : s.Distinct) {name : String} {decl : Option Place} {e : EntityRow} :
    s.entityAt? name decl = some e ↔ e ∈ s.entities ∧ e.name = name ∧ e.decl = decl := by
  have h := find?_key_eq_some hd.entityKeys (k := (name, decl)) (a := e)
  rw [Prod.mk.injEq] at h
  exact h

theorem entity?_eq_none {s : Store} {id : Int} : s.entity? id = none ↔ ¬ s.HasEntity id := by
  unfold entity? HasEntity
  rw [List.find?_eq_none]
  simp

theorem fileAt?_eq_none {s : Store} {path : String} : s.fileAt? path = none ↔ path ∉ s.files.map SourceFile.path := by
  unfold fileAt?
  rw [List.find?_eq_none]
  simp

theorem unit?_eq_none {s : Store} {indexFile : String} :
    s.unit? indexFile = none ↔ indexFile ∉ s.units.map UnitRow.indexFile := by
  unfold unit?
  rw [List.find?_eq_none]
  simp

theorem entityAt?_eq_none {s : Store} {name : String} {decl : Option Place} :
    s.entityAt? name decl = none ↔ (name, decl) ∉ s.entities.map fun e => (e.name, e.decl) := by
  unfold entityAt?
  rw [List.find?_eq_none]
  simp

/-! ## Deletions -/

theorem mem_deleteEntities_references {s : Store} {gone : Int → Bool} {r : ReferenceRow} :
    r ∈ (s.deleteEntities gone).references ↔ ∃ r' ∈ s.references, gone r'.entity = false ∧
      r = { r' with scope := r'.scope.filter fun id => !gone id } := by
  simp only [deleteEntities, List.mem_map, List.mem_filter, Bool.not_eq_true']
  have hscope : ∀ r' : ReferenceRow, (if r'.scope.any gone then { r' with scope := none } else r') =
      { r' with scope := r'.scope.filter fun id => !gone id } := by
    rintro ⟨entity, file, line, column, kindId, _ | id, unit⟩
    · rfl
    · cases hg : gone id <;> simp [hg, Option.filter]
  constructor
  · rintro ⟨r', ⟨h1, h2⟩, rfl⟩
    exact ⟨r', h1, h2, hscope r'⟩
  · rintro ⟨r', h1, h2, rfl⟩
    exact ⟨r', ⟨h1, h2⟩, hscope r'⟩

theorem hasEntity_deleteEntities {s : Store} {gone : Int → Bool} {id : Int} :
    (s.deleteEntities gone).HasEntity id ↔ s.HasEntity id ∧ gone id = false := by
  simp only [HasEntity, deleteEntities, List.mem_filter, Bool.not_eq_true']
  constructor
  · rintro ⟨e, ⟨he, hg⟩, rfl⟩; exact ⟨⟨e, he, rfl⟩, hg⟩
  · rintro ⟨⟨e, he, rfl⟩, hg⟩; exact ⟨e, ⟨he, hg⟩, rfl⟩

/-- Deleting entities keeps the invariant, whichever they are. -/
theorem deleteEntities_sound {s : Store} (hs : s.Sound) (gone : Int → Bool) : (s.deleteEntities gone).Sound where
  entities e he := (hs.entities e (List.mem_of_mem_filter he)).mono (fun _ h => h) (fun _ h => h)
  references r hr := by
    obtain ⟨r', hr', hg, rfl⟩ := mem_deleteEntities_references.1 hr
    have h := hs.references r' hr'
    refine ⟨hasEntity_deleteEntities.2 ⟨h.entity, hg⟩, h.file, h.unit, fun id hid => ?_, h.line, h.column⟩
    obtain ⟨h1, h2⟩ := Option.filter_eq_some_iff.1 hid
    exact hasEntity_deleteEntities.2 ⟨h.scope id h1, by simpa using h2⟩
  relations r hr := by
    simp only [deleteEntities, List.mem_filter, Bool.not_eq_true', Bool.or_eq_false_iff] at hr
    have h := hs.relations r hr.1
    exact ⟨hasEntity_deleteEntities.2 ⟨h.source, hr.2.1⟩, hasEntity_deleteEntities.2 ⟨h.target, hr.2.2⟩, h.unit⟩
  dependencies d hd := (hs.dependencies d hd).mono (fun _ h => h) (fun _ h => h)
  unitIds := hs.unitIds
  indexFiles := hs.indexFiles
  fileIds := hs.fileIds
  paths := hs.paths
  entityIds := hs.entityIds.sublist (List.filter_sublist.map _)
  entityKeys := hs.entityKeys.sublist (List.filter_sublist.map _)

/-- Deleting what a unit recorded keeps the invariant. -/
theorem deleteUnitRows_sound {s : Store} (hs : s.Sound) (unit : Int) : (s.deleteUnitRows unit).Sound := by
  have hg : s.Grows (s.deleteUnitRows unit) := .of_eq rfl rfl rfl
  refine ⟨⟨fun e he => ?_, fun r hr => ?_, fun r hr => ?_, fun d hd => ?_⟩, ⟨hs.unitIds, hs.indexFiles, hs.fileIds,
    hs.paths, hs.entityIds, hs.entityKeys⟩⟩
  · exact (hs.entities e he).mono (fun _ h => h) (fun _ h => h)
  · exact (hs.references r (List.mem_of_mem_filter hr)).mono hg
  · exact (hs.relations r (List.mem_of_mem_filter hr)).mono hg
  · exact (hs.dependencies d (List.mem_of_mem_filter hd)).mono (fun _ h => h) (fun _ h => h)

theorem mem_ownedBy {s : Store} {unit id : Int} :
    id ∈ s.ownedBy unit ↔ ∃ e ∈ s.entities, e.owner = some unit ∧ e.id = id := by
  simp only [ownedBy, List.mem_map, List.mem_filter, beq_iff_eq]
  constructor
  · rintro ⟨e, ⟨h1, h2⟩, h3⟩; exact ⟨e, h1, h2, h3⟩
  · rintro ⟨e, h1, h2, h3⟩; exact ⟨e, ⟨h1, h2⟩, h3⟩

/-- A unit that no row names can be taken out. -/
theorem dropUnit_sound {s : Store} (hs : s.Sound) {unit : Int} (he : ∀ e ∈ s.entities, e.owner ≠ some unit)
    (hr : ∀ r ∈ s.references, r.unit ≠ unit) (hl : ∀ r ∈ s.relations, r.unit ≠ unit)
    (hd : ∀ d ∈ s.dependencies, d.unit ≠ unit) :
    Sound { s with units := s.units.filter fun u => u.id != unit } := by
  have hu : ∀ id, id ≠ unit → s.HasUnit id → HasUnit { s with units := s.units.filter fun u => u.id != unit } id := by
    rintro id hne ⟨u, hu, rfl⟩
    exact ⟨u, List.mem_filter.2 ⟨hu, by simpa using hne⟩, rfl⟩
  refine ⟨⟨fun e h => ?_, fun r h => ?_, fun r h => ?_, fun d h => ?_⟩, ⟨?_, ?_, hs.fileIds, hs.paths,
    hs.entityIds, hs.entityKeys⟩⟩
  · obtain ⟨h1, h2, h3⟩ := hs.entities e h
    refine ⟨h1, h2, fun id hid => ?_⟩
    obtain ⟨h4, h5⟩ := h3 id hid
    exact ⟨hu id (fun e' => he e h (by rw [hid, e'])) h4, h5⟩
  · obtain ⟨h1, h2, h3, h4, h5, h6⟩ := hs.references r h
    exact ⟨h1, h2, hu _ (hr r h) h3, h4, h5, h6⟩
  · obtain ⟨h1, h2, h3⟩ := hs.relations r h
    exact ⟨h1, h2, hu _ (hl r h) h3⟩
  · obtain ⟨h1, h2, h3, h4⟩ := hs.dependencies d h
    exact ⟨h1, h2, h3, hu _ (hd d h) h4⟩
  · exact hs.unitIds.sublist (List.filter_sublist.map _)
  · exact hs.indexFiles.sublist (List.filter_sublist.map _)

/-- Deleting a unit keeps the invariant: its rows and the entities it owns go first. -/
theorem deleteUnit_sound {s : Store} (hs : s.Sound) (unit : Int) : (s.deleteUnit unit).Sound := by
  apply dropUnit_sound (deleteEntities_sound (deleteUnitRows_sound hs unit) _)
  · intro e he ho
    obtain ⟨he, hg⟩ := List.mem_filter.1 he
    have : e.id ∈ s.ownedBy unit := mem_ownedBy.2 ⟨e, he, ho, rfl⟩
    simp [this] at hg
  · intro r hr
    obtain ⟨r', hr', -, rfl⟩ := mem_deleteEntities_references.1 hr
    simpa using (List.mem_filter.1 hr').2
  · intro r hr
    simpa using (List.mem_filter.1 (List.mem_of_mem_filter hr)).2
  · intro d hd
    simpa using (List.mem_filter.1 hd).2

theorem purgeOrphans_sound {s : Store} (hs : s.Sound) : s.purgeOrphans.Sound :=
  deleteEntities_sound hs _

/-! ## Additions and changes of single rows -/

/-- A store that has grown is sound if its ids and keys are distinct, its entities are linked, and so
are the rows that are new in the other tables. -/
theorem Sound.grow {s t : Store} (hs : s.Sound) (hg : s.Grows t) (hd : t.Distinct)
    (he : ∀ e ∈ t.entities, e ∈ s.entities ∨ e.Linked t) (hr : ∀ r ∈ t.references, r ∈ s.references ∨ r.Linked t)
    (hl : ∀ r ∈ t.relations, r ∈ s.relations ∨ r.Linked t)
    (hp : ∀ d ∈ t.dependencies, d ∈ s.dependencies ∨ d.Linked t) : t.Sound := by
  refine ⟨⟨fun e h => ?_, fun r h => ?_, fun r h => ?_, fun d h => ?_⟩, hd⟩
  · rcases he e h with h | h
    · exact (hs.entities e h).mono (fun _ => hg.hasUnit) (fun _ => hg.hasFile)
    · exact h
  · rcases hr r h with h | h
    · exact (hs.references r h).mono hg
    · exact h
  · rcases hl r h with h | h
    · exact (hs.relations r h).mono hg
    · exact h
  · rcases hp d h with h | h
    · exact (hs.dependencies d h).mono (fun _ => hg.hasUnit) (fun _ => hg.hasFile)
    · exact h

/-- Interning a path changes nothing but the files, and the path is there afterwards under the id
that is returned. -/
theorem internFile_spec {s : Store} (hs : s.Sound) (path : String) :
    (s.internFile path).2.Sound ∧ s.Grows (s.internFile path).2 ∧
      ⟨(s.internFile path).1, path⟩ ∈ (s.internFile path).2.files := by
  unfold internFile
  rcases hf : s.fileAt? path with _ | f
  · have hpath : path ∉ s.files.map SourceFile.path := fileAt?_eq_none.1 hf
    have hg : s.Grows { s with files := s.files ++ [⟨nextId (s.files.map SourceFile.id), path⟩] } :=
      ⟨fun u hu => ⟨u, hu, rfl, rfl⟩, fun f hf => List.mem_append_left _ hf, fun e he => ⟨e, he, rfl, rfl, rfl⟩⟩
    refine ⟨hs.grow hg ⟨hs.unitIds, hs.indexFiles, nodup_map_concat hs.fileIds (nextId_notMem _),
      nodup_map_concat hs.paths hpath, hs.entityIds, hs.entityKeys⟩ (fun _ h => .inl h)
      (fun _ h => .inl h) (fun _ h => .inl h) (fun _ h => .inl h), hg, ?_⟩
    exact List.mem_append_right _ (List.mem_singleton_self _)
  · obtain ⟨hm, rfl⟩ := (fileAt?_eq_some hs.toDistinct).1 hf
    exact ⟨hs, .refl s, hm⟩

theorem internFile_eq (s : Store) (path : String) :
    (s.internFile path).2 = { s with files := (s.internFile path).2.files } := by
  unfold internFile
  split <;> rfl

theorem mem_internFile_files (s : Store) (path : String) :
    ∀ f ∈ (s.internFile path).2.files, f ∈ s.files ∨ f.path = path := by
  intro f hf
  unfold internFile at hf
  split at hf
  · exact .inl hf
  · rcases List.mem_append.1 hf with h | h
    · exact .inl h
    · rw [List.mem_singleton.1 h]
      exact .inr rfl

/-- Adding an entity under a key that is new keeps the invariant. -/
theorem addEntity_spec {s : Store} (hs : s.Sound) {row : Int → EntityRow} (hid : ∀ id, (row id).id = id)
    (hrow : ∀ id, (row id).Linked s) (hkey : ∀ id, s.entityAt? (row id).name (row id).decl = none) :
    (s.addEntity row).2.Sound ∧ s.Grows (s.addEntity row).2 := by
  let id := nextId (s.entities.map EntityRow.id)
  have hg : s.Grows (s.addEntity row).2 :=
    ⟨fun u hu => ⟨u, hu, rfl, rfl⟩, fun _ hf => hf, fun e he => ⟨e, List.mem_append_left _ he, rfl, rfl, rfl⟩⟩
  refine ⟨hs.grow hg ⟨hs.unitIds, hs.indexFiles, hs.fileIds, hs.paths, ?_, ?_⟩ (fun e h => ?_) (fun _ h => .inl h)
    (fun _ h => .inl h) (fun _ h => .inl h), hg⟩
  · exact nodup_map_concat hs.entityIds (by rw [hid]; exact nextId_notMem _)
  · exact nodup_map_concat hs.entityKeys (entityAt?_eq_none.1 (hkey id))
  · rcases List.mem_append.1 h with h | h
    · exact .inl h
    · rw [List.mem_singleton] at h
      subst h
      exact .inr ((hrow id).mono (fun _ h => h) (fun _ h => h))

/-- Describing an entity anew keeps the invariant if it keeps id, name and place. -/
theorem updateEntity_spec {s : Store} (hs : s.Sound) {e : EntityRow} (he : e ∈ s.entities)
    {change : EntityRow → EntityRow} (hid : (change e).id = e.id) (hname : (change e).name = e.name)
    (hdecl : (change e).decl = e.decl) (hrow : (change e).Linked s) :
    (s.updateEntity e.id change).Sound ∧ s.Grows (s.updateEntity e.id change) := by
  have hrows : ∀ x ∈ s.entities, (if x.id == e.id then change x else x) = if x = e then change e else x := by
    intro x hx
    by_cases hxe : x.id = e.id
    · obtain rfl := List.inj_on_of_nodup_map hs.entityIds hx he hxe
      simp
    · have : x ≠ e := fun h => hxe (by rw [h])
      simp [hxe, this]
  have hmap : (s.updateEntity e.id change).entities = s.entities.map fun x => if x = e then change e else x :=
    List.map_congr_left hrows
  have hkeep : ∀ x : EntityRow, (if x = e then change e else x).id = x.id ∧
      (if x = e then change e else x).name = x.name ∧ (if x = e then change e else x).decl = x.decl := by
    intro x
    split
    · rename_i h; subst h; exact ⟨hid, hname, hdecl⟩
    · exact ⟨rfl, rfl, rfl⟩
  have hg : s.Grows (s.updateEntity e.id change) := by
    refine ⟨fun u hu => ⟨u, hu, rfl, rfl⟩, fun _ hf => hf, fun x hx => ⟨_, ?_, hkeep x⟩⟩
    rw [hmap]
    exact List.mem_map.2 ⟨x, hx, rfl⟩
  refine ⟨hs.grow hg ⟨hs.unitIds, hs.indexFiles, hs.fileIds, hs.paths, ?_, ?_⟩ (fun x hx => ?_) (fun _ h => .inl h)
    (fun _ h => .inl h) (fun _ h => .inl h), hg⟩
  · rw [hmap, map_map_key fun x => (hkeep x).1]
    exact hs.entityIds
  · rw [hmap, map_map_key fun x => Prod.ext (hkeep x).2.1 (hkeep x).2.2]
    exact hs.entityKeys
  · rw [hmap] at hx
    obtain ⟨y, hy, rfl⟩ := List.mem_map.1 hx
    split
    · exact .inr (hrow.mono (fun _ h => h) (fun _ h => h))
    · exact .inl hy

/-- Entering a unit keeps the invariant, and the unit is there afterwards under the id that is
returned. -/
theorem enterUnit_spec {s : Store} (hs : s.Sound) (u : UnitRecord) :
    (s.enterUnit u).2.Sound ∧ s.Grows (s.enterUnit u).2 ∧
      ⟨(s.enterUnit u).1, u.indexFile, u.stamp, u.checksum, false⟩ ∈ (s.enterUnit u).2.units := by
  unfold enterUnit
  rcases hu : s.unit? u.indexFile with _ | row
  · have hfile : u.indexFile ∉ s.units.map UnitRow.indexFile := unit?_eq_none.1 hu
    have hg : s.Grows { s with
        units := s.units ++ [⟨nextId (s.units.map UnitRow.id), u.indexFile, u.stamp, u.checksum, false⟩] } :=
      ⟨fun u hu => ⟨u, List.mem_append_left _ hu, rfl, rfl⟩, fun _ hf => hf, fun e he => ⟨e, he, rfl, rfl, rfl⟩⟩
    refine ⟨hs.grow hg ⟨nodup_map_concat hs.unitIds (nextId_notMem _), nodup_map_concat hs.indexFiles hfile,
      hs.fileIds, hs.paths, hs.entityIds, hs.entityKeys⟩ (fun _ h => .inl h) (fun _ h => .inl h) (fun _ h => .inl h)
      (fun _ h => .inl h), hg, ?_⟩
    exact List.mem_append_right _ (List.mem_singleton_self _)
  · obtain ⟨hrow, hfile⟩ := (unit?_eq_some hs.toDistinct).1 hu
    let change : UnitRow → UnitRow := fun r => if r.id == row.id then
      { r with stamp := u.stamp, checksum := u.checksum, fromBaseline := false } else r
    have hkeep : ∀ r, (change r).id = r.id ∧ (change r).indexFile = r.indexFile := by
      intro r
      simp only [change]
      split <;> exact ⟨rfl, rfl⟩
    have hg : s.Grows { s with units := s.units.map change } :=
      ⟨fun r hr => ⟨_, List.mem_map.2 ⟨r, hr, rfl⟩, hkeep r⟩, fun _ hf => hf, fun e he => ⟨e, he, rfl, rfl, rfl⟩⟩
    refine ⟨hs.grow hg ⟨?_, ?_, hs.fileIds, hs.paths, hs.entityIds, hs.entityKeys⟩ (fun _ h => .inl h)
      (fun _ h => .inl h) (fun _ h => .inl h) (fun _ h => .inl h), hg, ?_⟩
    · show ((s.units.map change).map UnitRow.id).Nodup
      rw [map_map_key fun r => (hkeep r).1]
      exact hs.unitIds
    · show ((s.units.map change).map UnitRow.indexFile).Nodup
      rw [map_map_key fun r => (hkeep r).2]
      exact hs.indexFiles
    · refine List.mem_map.2 ⟨row, hrow, ?_⟩
      simp only [← hfile, beq_self_eq_true, if_true]

theorem registerKind_sound {s : Store} (hs : s.Sound) (kind : ReferenceKind) : (s.registerKind kind).Sound := by
  have hg : s.Grows (s.registerKind kind) := by unfold registerKind; split <;> exact .of_eq rfl rfl rfl
  have hd : (s.registerKind kind).Distinct := by
    unfold registerKind
    split <;> exact ⟨hs.unitIds, hs.indexFiles, hs.fileIds, hs.paths, hs.entityIds, hs.entityKeys⟩
  refine hs.grow hg hd ?_ ?_ ?_ ?_ <;> unfold registerKind <;> split <;> exact fun _ h => .inl h

theorem bump_sound {s : Store} (hs : s.Sound) : s.bump.Sound :=
  hs.grow (.of_eq rfl rfl rfl) ⟨hs.unitIds, hs.indexFiles, hs.fileIds, hs.paths, hs.entityIds, hs.entityKeys⟩
    (fun _ h => .inl h) (fun _ h => .inl h) (fun _ h => .inl h) (fun _ h => .inl h)

theorem fresh_sound : Store.fresh.Sound := by
  constructor <;> constructor <;> simp [fresh]

end Store

end CrossIndex
