/-
Declarations read back. A unit may record a key several times, also under different spellings of its path; each record
that it declares describes the row anew, whatever the row said before, so the last one stays. Main statement: after a
write, whatever the unit records in one of its source files has the declaration that it records, with the kind and the
flags of the last record of the key, and belongs to the unit.
-/
import CrossIndex.Proofs.Store.Reachable
import CrossIndex.Proofs.Store.Trace
import CrossIndex.Query.Entity
import CrossIndex.Source.Memory

namespace CrossIndex

namespace UnitRecord

/-- The last record of a key. -/
def latest? (canon : String → String) (u : UnitRecord) (k : EntityKey) : Option EntityRecord :=
  (u.entities.filter fun r => r.key.stored canon == k).getLast?

variable {canon : String → String} {u : UnitRecord} {k : EntityKey} {r : EntityRecord}

theorem exists_latest? (hr : r ∈ u.entities) (hkey : r.key.stored canon = k) :
    ∃ last, u.latest? canon k = some last := by
  have hmem : r ∈ u.entities.filter fun r => r.key.stored canon == k := List.mem_filter.2 ⟨hr, beq_iff_eq.2 hkey⟩
  exact ⟨_, List.getLast?_eq_some_getLast (List.ne_nil_of_mem hmem)⟩

/-- The last record of a key decides what a unit makes of an entity in one of its source files. -/
theorem putView_latest (hlists : u.Lists canon k) (hlast : u.latest? canon k = some r) (v : EntityView) :
    u.putView canon k v = ⟨r.kind, r.flags, some u.indexFile, false⟩ := by
  obtain ⟨before, hrecords⟩ := List.getLast?_eq_some_iff.1 hlast
  have hfold : u.putView canon k v = (u.entities.filter fun r => r.key.stored canon == k).foldl
      (fun v r => r.putView (k.within (u.sourceFiles.map canon)) u.indexFile v) v := by
    rw [List.foldl_filter]
    simp only [beq_iff_eq, putView]
  -- a record of one of the unit's own files sets all that a view has, so nothing of the earlier ones is left
  rw [hfold, hrecords, List.foldl_append, List.foldl_cons, List.foldl_nil, EntityRecord.putView,
    show k.within (u.sourceFiles.map canon) = true from hlists]
  simp

end UnitRecord

namespace Store

/-- A row is the entity that a unit records at a location in one of its source files, and its declaration says so, with
the kind and the flags of the last record. The unit owns it, and it does not count as inserted explicitly. -/
structure ReadsBack (t : Store) (indexFile : String) (name : String) (l : Location) (last : EntityRecord)
    (e : EntityRow) : Prop where
  row : t.row? ⟨name, some l⟩ = some e
  name : (t.declaration e.id).name = name
  kind : (t.declaration e.id).kind = last.kind
  flags : (t.declaration e.id).flags = last.flags
  location : ∃ f ∈ t.files, f.path = l.file ∧ (t.declaration e.id).location =
    ⟨Entity.ofId e.id, some f, l.line, l.column, t.declarationDisplay, ReferenceKind.declarationId, Entity.none, false⟩
  owner : ∃ unit ∈ t.units, unit.indexFile = indexFile ∧ e.owner = some unit.id
  dynamic : e.dynamic = false

variable {canon : String → String} {s t : Store} {u : UnitRecord} {k : EntityKey} {e : EntityRow} {l : Location}

/-- The declaration of the entity with a key lies where the key says. -/
theorem declaration_of_row? (ht : t.Sound) {name : String} (he : t.row? ⟨name, some l⟩ = some e) :
    ∃ f ∈ t.files, f.path = l.file ∧ t.declaration e.id = ⟨name, e.kind, ⟨Entity.ofId e.id, some f, l.line, l.column,
      t.declarationDisplay, ReferenceKind.declarationId, Entity.none, false⟩, e.flags⟩ := by
  obtain ⟨hmem, hkey⟩ := (row?_eq_some ht).1 he
  simp only [keyOf, EntityKey.mk.injEq] at hkey
  obtain ⟨rfl, hdecl⟩ := hkey
  obtain ⟨p, hp, hlocation⟩ := Option.bind_eq_some_iff.1 hdecl
  obtain ⟨f, hf, rfl⟩ := Option.map_eq_some_iff.1 hlocation
  refine ⟨f, ((file?_eq_some ht.toDistinct).1 hf).1, rfl, ?_⟩
  simp [declaration, (entity?_eq_some ht.toDistinct).2 ⟨hmem, rfl⟩, declarationReference, hp, hf]

/-- After a write, the view of an entity that the unit declares is that of the last record. -/
theorem Replaced.view?_latest (h : s.Replaced canon u t) (hlists : u.Lists canon k) {last : EntityRecord}
    (hlast : u.latest? canon k = some last) : t.view? k = some ⟨last.kind, last.flags, some u.indexFile, false⟩ := by
  have hrecorded := List.mem_filter.1 (List.mem_of_getLast? hlast)
  have htouches : u.Touches canon k := List.mem_map.2 ⟨last.key,
    List.mem_append_left _ (List.mem_map_of_mem hrecorded.1), beq_iff_eq.1 hrecorded.2⟩
  rw [h.touched k (fun hdrops => hdrops.2 ⟨htouches, hlists⟩) htouches, UnitRecord.putView_latest hlists hlast]

theorem readsBack_of_view? (ht : t.Sound) {name file : String} {last : EntityRecord}
    (h : t.view? ⟨name, some l⟩ = some ⟨last.kind, last.flags, some file, false⟩) :
    ∃ e, t.ReadsBack file name l last e := by
  obtain ⟨e, he, hview⟩ := Option.map_eq_some_iff.1 h
  simp only [view, EntityView.mk.injEq] at hview
  obtain ⟨hkind, hflags, howner, hdynamic⟩ := hview
  obtain ⟨id, hid, hfile⟩ := Option.bind_eq_some_iff.1 howner
  obtain ⟨unit, hunit, rfl, hindex⟩ := (indexFileAt?_eq_some ht).1 hfile
  obtain ⟨f, hf, hpath, hdecl⟩ := declaration_of_row? ht he
  exact ⟨e, he, by rw [hdecl], by rw [hdecl, hkind], by rw [hdecl, hflags], ⟨f, hf, hpath, by rw [hdecl]⟩,
    ⟨unit, hunit, hindex, hid⟩, hdynamic⟩

/-- In every reachable store a unit without defects can be written, and then every entity that it records in one of its
source files reads back, whatever was known of it before. -/
theorem declarations_read_back {Canonical : (String → String) → Prop} (hs : s.Reachable Canonical)
    (canon : String → String) (hu : u.check = .ok ()) :
    ∃ t, s.writeUnit canon u = .ok t ∧ ∀ r ∈ u.entities, ∀ l, r.decl = some l → canon l.file ∈ u.sourceFiles.map canon →
      ∃ last e, u.latest? canon ⟨r.name, some (l.stored canon)⟩ = some last ∧
        t.ReadsBack u.indexFile r.name (l.stored canon) last e := by
  have hreplaced : s.Replaced canon (u.respelled canon) (s.replaceUnit canon u) := replaceUnit_respelled hs.sound hu
  refine ⟨s.replaceUnit canon u, by rw [writeUnit, hu], fun r hr l hl hfile => ?_⟩
  have hkey : r.key.stored canon = ⟨r.name, some (l.stored canon)⟩ := by
    rw [EntityRecord.key, hl]
    rfl
  obtain ⟨last, hlast⟩ := UnitRecord.exists_latest? hr hkey
  have hlists : u.Lists canon ⟨r.name, some (l.stored canon)⟩ := List.contains_iff_mem.2 hfile
  obtain ⟨e, he⟩ := readsBack_of_view? hreplaced.sound (hreplaced.view?_latest hlists hlast)
  exact ⟨last, e, hlast, he⟩

/-- A unit that declares an entity. -/
def formerUnit : UnitRecord where
  indexFile := "b.ali"
  stamp := 1
  sourceFiles := ["a.ads"]
  entities := [⟨"P", "package", some ⟨"a.ads", 1, 9⟩, {}⟩]

/-- A unit that declares the same entity twice, under two spellings of the path. -/
def repeatedUnit : UnitRecord where
  indexFile := "a.ali"
  stamp := 1
  sourceFiles := ["a.ads"]
  entities := [⟨"P", "procedure", some ⟨"./a.ads", 1, 9⟩, { isSubprogram := true }⟩,
    ⟨"P", "function", some ⟨"a.ads", 1, 9⟩, { isSubprogram := true, isGlobal := true, bodyIsFullDeclaration := true }⟩]
  references := [⟨⟨"P", some ⟨"./a.ads", 1, 9⟩⟩, ⟨"a.ads", 3, 2⟩, 'r', none⟩]

/-- The store of a new database that has been brought up to date with the former unit. -/
def formerStore : Store :=
  (fresh.update Path.normalize {} (MemorySource.ofUnits [formerUnit]).toSource false none).store

/-- The entity passes from one unit to the other. What is recorded first reads back as the second record
describes it. -/
theorem formerStore_readsBack :
    (formerStore.entities = [⟨1, "P", "package", some ⟨1, 1, 9⟩, false, false, 0, some 1, false⟩] ∧
      formerStore.units = [⟨1, "b.ali", 1, none, false⟩] ∧ repeatedUnit.check = .ok ()) ∧
      ∃ t e, formerStore.writeUnit Path.normalize repeatedUnit = .ok t ∧ t.ReadsBack "a.ali" "P" ⟨"a.ads", 1, 9⟩
        ⟨"P", "function", some ⟨"a.ads", 1, 9⟩,
          { isSubprogram := true, isGlobal := true, bodyIsFullDeclaration := true }⟩ e := by
  have hreach : Reachable (fun _ => True) formerStore := .update .fresh trivial fun _ h => by cases h
  have hcheck : repeatedUnit.check = .ok () := by decide +kernel
  obtain ⟨t, ht, hreads⟩ := declarations_read_back hreach Path.normalize hcheck
  obtain ⟨last, e, hlast, he⟩ := hreads ⟨"P", "procedure", some ⟨"./a.ads", 1, 9⟩, { isSubprogram := true }⟩
    List.mem_cons_self ⟨"./a.ads", 1, 9⟩ rfl (by decide +kernel)
  have hpath : Path.normalize "./a.ads" = "a.ads" := by decide +kernel
  have hsecond : repeatedUnit.latest? Path.normalize ⟨"P", some ⟨"a.ads", 1, 9⟩⟩ = some ⟨"P", "function",
      some ⟨"a.ads", 1, 9⟩, { isSubprogram := true, isGlobal := true, bodyIsFullDeclaration := true }⟩ := by
    decide +kernel
  simp only [Location.stored, hpath, hsecond, Option.some.injEq] at hlast he
  subst hlast
  exact ⟨⟨by decide +kernel, by decide +kernel, hcheck⟩, t, e, ht, he⟩

end Store

end CrossIndex
