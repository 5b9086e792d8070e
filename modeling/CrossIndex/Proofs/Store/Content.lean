/-
What a store says, with keys in place of ids. Each row reads back as the record that writes it, with
the paths as they are stored; the content of a store is what all its rows read back as. A row keeps
its reading while the store grows, and a deletion changes only the readings of rows that name what
is deleted.
-/
import CrossIndex.Proofs.Store.Key
import Mathlib.Data.Multiset.MapFold

namespace CrossIndex

/-- A recorded reference with its paths as they are stored. -/
def ReferenceRecord.stored (canon : String → String) (r : ReferenceRecord) : ReferenceRecord :=
  { r with
    entity := r.entity.stored canon
    location := r.location.stored canon
    scope := r.scope.map (EntityKey.stored canon) }

/-- A recorded relation with its paths as they are stored. -/
def RelationRecord.stored (canon : String → String) (r : RelationRecord) : RelationRecord :=
  { r with source := r.source.stored canon, target := r.target.stored canon }

namespace Store

/-- The key of the entity with an id. -/
def keyAt? (s : Store) (id : Int) : Option EntityKey :=
  (s.entity? id).map s.keyOf

/-- The path of the file with an id. -/
def pathAt? (s : Store) (id : Int) : Option String :=
  (s.file? id).map SourceFile.path

/-- The index file of the unit with an id. -/
def indexFileAt? (s : Store) (id : Int) : Option String :=
  (s.units.find? fun u => u.id == id).map UnitRow.indexFile

/-- What an entity row records. -/
def entityRecord (s : Store) (e : EntityRow) : EntityRecord :=
  ⟨e.name, e.kind, e.decl.bind s.location?, e.flags⟩

/-- What a reference row records. -/
def referenceRecord? (s : Store) (r : ReferenceRow) : Option ReferenceRecord := do
  return ⟨← s.keyAt? r.entity, ⟨← s.pathAt? r.file, r.line, r.column⟩, r.kindId, r.scope.bind s.keyAt?⟩

/-- What a relation row records. -/
def relationRecord? (s : Store) (r : RelationRow) : Option RelationRecord := do
  return ⟨← s.keyAt? r.source, ← s.keyAt? r.target, r.kind, r.order, r.parameterKind⟩

/-- The path of the file that depends on another one, and the path of that one. -/
def dependencyPaths? (s : Store) (d : DependencyRow) : Option (String × String) := do
  return (← s.pathAt? d.source, ← s.pathAt? d.target)

end Store

/-- What the rows of a store record, each with the index file of its unit, in any order. -/
structure StoreContent where
  entities : Multiset EntityRecord
  references : Multiset (Option String × Option ReferenceRecord)
  relations : Multiset (Option String × Option RelationRecord)
  dependencies : Multiset (Option String × Option (String × String))

namespace Store

/-- The content of a store. -/
def content (s : Store) : StoreContent where
  entities := s.entities.map s.entityRecord
  references := s.references.map fun r => (s.indexFileAt? r.unit, s.referenceRecord? r)
  relations := s.relations.map fun r => (s.indexFileAt? r.unit, s.relationRecord? r)
  dependencies := s.dependencies.map fun d => (s.indexFileAt? d.unit, s.dependencyPaths? d)

variable {s t : Store}

/-! ## Ids and what they stand for -/

/-- Looking up the key of an id is the same as being told by a row. -/
theorem keyAt?_eq_some (hs : s.Sound) {id : Int} {k : EntityKey} : s.keyAt? id = some k ↔ s.Names id k := by
  unfold keyAt?
  rw [Option.map_eq_some_iff]
  constructor
  · rintro ⟨e, he, hk⟩
    obtain ⟨hm, hid⟩ := (entity?_eq_some hs.toDistinct).1 he
    exact ⟨e, hm, hid, hk⟩
  · rintro ⟨e, hm, hid, hk⟩
    exact ⟨e, (entity?_eq_some hs.toDistinct).2 ⟨hm, hid⟩, hk⟩

theorem pathAt?_eq_some (hs : s.Sound) {id : Int} {path : String} :
    s.pathAt? id = some path ↔ ⟨id, path⟩ ∈ s.files := by
  unfold pathAt?
  rw [Option.map_eq_some_iff]
  constructor
  · rintro ⟨f, hf, rfl⟩
    obtain ⟨hm, rfl⟩ := (file?_eq_some hs.toDistinct).1 hf
    exact hm
  · intro hm
    exact ⟨_, (file?_eq_some hs.toDistinct).2 ⟨hm, rfl⟩, rfl⟩

theorem indexFileAt?_eq_some (hs : s.Sound) {id : Int} {file : String} :
    s.indexFileAt? id = some file ↔ ∃ u ∈ s.units, u.id = id ∧ u.indexFile = file := by
  unfold indexFileAt?
  rw [Option.map_eq_some_iff]
  constructor
  · rintro ⟨u, hu, hf⟩
    obtain ⟨hm, hid⟩ := (find?_key_eq_some hs.unitIds).1 hu
    exact ⟨u, hm, hid, hf⟩
  · rintro ⟨u, hm, hid, hf⟩
    exact ⟨u, (find?_key_eq_some hs.unitIds).2 ⟨hm, hid⟩, hf⟩

theorem HasEntity.names {id : Int} (h : s.HasEntity id) : ∃ k, s.Names id k := by
  obtain ⟨e, he, hid⟩ := h
  exact ⟨s.keyOf e, e, he, hid, rfl⟩

/-- An id that names an entity goes on to name the same one. -/
theorem Grows.keyAt? (hg : s.Grows t) (hs : s.Sound) (ht : t.Sound) {id : Int} (h : s.HasEntity id) :
    t.keyAt? id = s.keyAt? id := by
  obtain ⟨k, hk⟩ := h.names
  rw [(keyAt?_eq_some hs).2 hk, (keyAt?_eq_some ht).2 (hg.names hs ht hk)]

theorem Grows.pathAt? (hg : s.Grows t) (hs : s.Sound) (ht : t.Sound) {id : Int} (h : s.HasFile id) :
    t.pathAt? id = s.pathAt? id := by
  obtain ⟨f, hf, rfl⟩ := h
  rw [(pathAt?_eq_some hs).2 hf, (pathAt?_eq_some ht).2 (hg.files f hf)]

/-- A reference row that reads back names the entity and lies in the file of its record. -/
theorem referenceRecord?_eq_some (hs : s.Sound) {row : ReferenceRow} {r : ReferenceRecord}
    (h : s.referenceRecord? row = some r) :
    s.Names row.entity r.entity ∧ ⟨row.file, r.location.file⟩ ∈ s.files ∧ row.scope.bind s.keyAt? = r.scope := by
  unfold referenceRecord? at h
  rcases hk : s.keyAt? row.entity with _ | k <;> rw [hk] at h
  · cases h
  · rcases hp : s.pathAt? row.file with _ | p <;> rw [hp] at h
    · cases h
    · cases h
      exact ⟨(keyAt?_eq_some hs).1 hk, (pathAt?_eq_some hs).1 hp, rfl⟩

theorem relationRecord?_eq_some (hs : s.Sound) {row : RelationRow} {r : RelationRecord}
    (h : s.relationRecord? row = some r) : s.Names row.source r.source ∧ s.Names row.target r.target := by
  unfold relationRecord? at h
  rcases hk : s.keyAt? row.source with _ | k <;> rw [hk] at h
  · cases h
  · rcases hp : s.keyAt? row.target with _ | p <;> rw [hp] at h
    · cases h
    · cases h
      exact ⟨(keyAt?_eq_some hs).1 hk, (keyAt?_eq_some hs).1 hp⟩

/-! ## Readings tell rows of one unit apart -/

/-- No two entities have one key, so that a reading tells which id a row has. -/
theorem keyAt?_inj (hs : s.Sound) {i j : Int} (hi : s.HasEntity i) (hj : s.HasEntity j) (h : s.keyAt? i = s.keyAt? j) :
    i = j := by
  obtain ⟨k, hk⟩ := hi.names
  obtain ⟨k', hk'⟩ := hj.names
  rw [(keyAt?_eq_some hs).2 hk, (keyAt?_eq_some hs).2 hk', Option.some.injEq] at h
  exact (hk.id_eq_iff hs hk').2 h

theorem pathAt?_inj (hs : s.Sound) {i j : Int} (hi : s.HasFile i) (hj : s.HasFile j) (h : s.pathAt? i = s.pathAt? j) :
    i = j := by
  obtain ⟨f, hf, rfl⟩ := hi
  obtain ⟨g, hg, rfl⟩ := hj
  rw [(pathAt?_eq_some hs).2 hf, (pathAt?_eq_some hs).2 hg, Option.some.injEq] at h
  rw [List.inj_on_of_nodup_map hs.paths hf hg h]

theorem HasEntity.keyAt? (hs : s.Sound) {id : Int} (h : s.HasEntity id) : ∃ k, s.keyAt? id = some k := by
  obtain ⟨k, hk⟩ := h.names
  exact ⟨k, (keyAt?_eq_some hs).2 hk⟩

theorem HasFile.pathAt? (hs : s.Sound) {id : Int} (h : s.HasFile id) : ∃ path, s.pathAt? id = some path := by
  obtain ⟨f, hf, rfl⟩ := h
  exact ⟨f.path, (pathAt?_eq_some hs).2 hf⟩

/-- Reference rows of one unit that read alike are one row: all their columns are in the reading, ids as
what they stand for. -/
theorem referenceRecord?_inj (hs : s.Sound) {r r' : ReferenceRow} (hr : r.Linked s) (hr' : r'.Linked s)
    (hunit : r.unit = r'.unit) (h : s.referenceRecord? r = s.referenceRecord? r') : r = r' := by
  obtain ⟨k, hk⟩ := hr.entity.keyAt? hs
  obtain ⟨k', hk'⟩ := hr'.entity.keyAt? hs
  obtain ⟨p, hp⟩ := hr.file.pathAt? hs
  obtain ⟨p', hp'⟩ := hr'.file.pathAt? hs
  simp only [referenceRecord?, hk, hk', hp, hp', Option.bind_eq_bind, Option.bind_some, Option.pure_def,
    Option.some.injEq, ReferenceRecord.mk.injEq, Location.mk.injEq] at h
  obtain ⟨rfl, ⟨rfl, hline, hcolumn⟩, hkind, hscope⟩ := h
  have hentity := keyAt?_inj hs hr.entity hr'.entity (hk.trans hk'.symm)
  have hfile := pathAt?_inj hs hr.file hr'.file (hp.trans hp'.symm)
  have hsame : r.scope = r'.scope := by
    rcases hsc : r.scope with _ | i <;> rcases hsc' : r'.scope with _ | j
    · rfl
    · obtain ⟨k, hk⟩ := (hr'.scope j hsc').keyAt? hs
      simp [hsc, hsc', hk] at hscope
    · obtain ⟨k, hk⟩ := (hr.scope i hsc).keyAt? hs
      simp [hsc, hsc', hk] at hscope
    · rw [hsc, hsc'] at hscope
      rw [keyAt?_inj hs (hr.scope i hsc) (hr'.scope j hsc') hscope]
  cases r
  cases r'
  simp_all

/-- The same for relations, ... -/
theorem relationRecord?_inj (hs : s.Sound) {r r' : RelationRow} (hr : r.Linked s) (hr' : r'.Linked s)
    (hunit : r.unit = r'.unit) (h : s.relationRecord? r = s.relationRecord? r') : r = r' := by
  obtain ⟨k, hk⟩ := hr.source.keyAt? hs
  obtain ⟨k', hk'⟩ := hr'.source.keyAt? hs
  obtain ⟨l, hl⟩ := hr.target.keyAt? hs
  obtain ⟨l', hl'⟩ := hr'.target.keyAt? hs
  simp only [relationRecord?, hk, hk', hl, hl', Option.bind_eq_bind, Option.bind_some, Option.pure_def,
    Option.some.injEq, RelationRecord.mk.injEq] at h
  obtain ⟨rfl, rfl, hkind, horder, hparameter⟩ := h
  have hsource := keyAt?_inj hs hr.source hr'.source (hk.trans hk'.symm)
  have htarget := keyAt?_inj hs hr.target hr'.target (hl.trans hl'.symm)
  cases r
  cases r'
  simp_all

/-- ... and for dependencies between files. -/
theorem dependencyPaths?_inj (hs : s.Sound) {d d' : DependencyRow} (hd : d.Linked s) (hd' : d'.Linked s)
    (hunit : d.unit = d'.unit) (h : s.dependencyPaths? d = s.dependencyPaths? d') : d = d' := by
  obtain ⟨p, hp⟩ := hd.source.pathAt? hs
  obtain ⟨p', hp'⟩ := hd'.source.pathAt? hs
  obtain ⟨q, hq⟩ := hd.target.pathAt? hs
  obtain ⟨q', hq'⟩ := hd'.target.pathAt? hs
  simp only [dependencyPaths?, hp, hp', hq, hq', Option.bind_eq_bind, Option.bind_some, Option.pure_def,
    Option.some.injEq, Prod.mk.injEq] at h
  obtain ⟨rfl, rfl⟩ := h
  have hsource := pathAt?_inj hs hd.source hd'.source (hp.trans hp'.symm)
  have htarget := pathAt?_inj hs hd.target hd'.target (hq.trans hq'.symm)
  cases d
  cases d'
  simp_all

/-! ## Readings stay while the store grows -/

/-- What a linked row says does not depend on rows that come later. -/
theorem Grows.referenceRecord? (hg : s.Grows t) (hs : s.Sound) (ht : t.Sound) {r : ReferenceRow} (hr : r.Linked s) :
    t.referenceRecord? r = s.referenceRecord? r := by
  have hscope : r.scope.bind t.keyAt? = r.scope.bind s.keyAt? := by
    rcases hsc : r.scope with _ | id
    · rfl
    · exact hg.keyAt? hs ht (hr.scope id hsc)
  unfold Store.referenceRecord?
  rw [hg.keyAt? hs ht hr.entity, hg.pathAt? hs ht hr.file, hscope]

theorem Grows.relationRecord? (hg : s.Grows t) (hs : s.Sound) (ht : t.Sound) {r : RelationRow} (hr : r.Linked s) :
    t.relationRecord? r = s.relationRecord? r := by
  unfold Store.relationRecord?
  rw [hg.keyAt? hs ht hr.source, hg.keyAt? hs ht hr.target]

theorem Grows.dependencyPaths? (hg : s.Grows t) (hs : s.Sound) (ht : t.Sound) {d : DependencyRow} (hd : d.Linked s) :
    t.dependencyPaths? d = s.dependencyPaths? d := by
  unfold Store.dependencyPaths?
  rw [hg.pathAt? hs ht hd.source, hg.pathAt? hs ht hd.target]

end Store

end CrossIndex
