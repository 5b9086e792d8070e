/-
Stores that are equal up to their ids. A renaming gives new ids to entities, files and units, and so to
all rows that name them. Main statement: two stores whose rows read the same, once keys, paths and
index files stand in place of ids, are renamings of each other.
-/
import CrossIndex.Proofs.Store.View

namespace CrossIndex

/-- New ids for entities, files and units. -/
structure Renaming where
  entity : Int → Int
  file : Int → Int
  unit : Int → Int

namespace Renaming

variable (ρ : Renaming)

def unitRow (u : UnitRow) : UnitRow :=
  { u with id := ρ.unit u.id }

def sourceFile (f : SourceFile) : SourceFile :=
  { f with id := ρ.file f.id }

def place (p : Place) : Place :=
  { p with file := ρ.file p.file }

def entityRow (e : EntityRow) : EntityRow :=
  { e with id := ρ.entity e.id, decl := e.decl.map ρ.place, owner := e.owner.map ρ.unit }

def referenceRow (r : ReferenceRow) : ReferenceRow :=
  { r with entity := ρ.entity r.entity, file := ρ.file r.file, scope := r.scope.map ρ.entity, unit := ρ.unit r.unit }

def relationRow (r : RelationRow) : RelationRow :=
  { r with source := ρ.entity r.source, target := ρ.entity r.target, unit := ρ.unit r.unit }

def dependencyRow (d : DependencyRow) : DependencyRow :=
  ⟨ρ.file d.source, ρ.file d.target, ρ.unit d.unit⟩

/-- A renaming keeps the ids of a store apart, and takes its rows to those of another one, each as often. -/
structure Renames (s t : Store) : Prop where
  entityIds : ∀ i j, s.HasEntity i → s.HasEntity j → ρ.entity i = ρ.entity j → i = j
  fileIds : ∀ i j, s.HasFile i → s.HasFile j → ρ.file i = ρ.file j → i = j
  unitIds : ∀ i j, s.HasUnit i → s.HasUnit j → ρ.unit i = ρ.unit j → i = j
  units : (s.units.map ρ.unitRow).Perm t.units
  files : (s.files.map ρ.sourceFile).Perm t.files
  entities : (s.entities.map ρ.entityRow).Perm t.entities
  references : (s.references.map ρ.referenceRow).Perm t.references
  relations : (s.relations.map ρ.relationRow).Perm t.relations
  dependencies : (s.dependencies.map ρ.dependencyRow).Perm t.dependencies
  kinds : t.kinds = s.kinds
  generation : t.generation = s.generation

end Renaming

/-! ## Rows without ids -/

/-- A unit row without its id. -/
def UnitRow.reading (u : UnitRow) : String × Int × Option String × Bool :=
  (u.indexFile, u.stamp, u.checksum, u.fromBaseline)

namespace Store

/-- An entity row without its id: its key, its view and its attributes as they are packed. -/
def entityReading (s : Store) (e : EntityRow) : EntityKey × EntityView × Nat :=
  (s.keyOf e, s.view e, e.attributes)

/-- The rows of two stores read the same, each as often. -/
structure Matches (s t : Store) : Prop where
  units : (s.units.map UnitRow.reading).Perm (t.units.map UnitRow.reading)
  files : (s.files.map SourceFile.path).Perm (t.files.map SourceFile.path)
  entities : (s.entities.map s.entityReading).Perm (t.entities.map t.entityReading)
  references : (s.references.map fun r => (s.indexFileAt? r.unit, s.referenceRecord? r)).Perm
    (t.references.map fun r => (t.indexFileAt? r.unit, t.referenceRecord? r))
  relations : (s.relations.map fun r => (s.indexFileAt? r.unit, s.relationRecord? r)).Perm
    (t.relations.map fun r => (t.indexFileAt? r.unit, t.relationRecord? r))
  dependencies : (s.dependencies.map fun d => (s.indexFileAt? d.unit, s.dependencyPaths? d)).Perm
    (t.dependencies.map fun d => (t.indexFileAt? d.unit, t.dependencyPaths? d))
  kinds : t.kinds = s.kinds
  generation : t.generation = s.generation

/-- The renaming that goes by keys, paths and index files. -/
def renamingTo (s t : Store) : Renaming where
  entity id := (((s.keyAt? id).bind t.row?).map EntityRow.id).getD 0
  file id := (((s.pathAt? id).bind t.fileAt?).map SourceFile.id).getD 0
  unit id := (((s.indexFileAt? id).bind t.unit?).map UnitRow.id).getD 0

theorem HasUnit.indexFileAt? {s : Store} (hs : s.Sound) {id : Int} (h : s.HasUnit id) :
    ∃ file, s.indexFileAt? id = some file := by
  obtain ⟨u, hu, rfl⟩ := h
  exact ⟨u.indexFile, (indexFileAt?_eq_some hs).2 ⟨u, hu, rfl, rfl⟩⟩

/-! ## Renaming by reading -/

/-- Rows that read the same can be put in the same order, where a reading tells which row is meant. -/
theorem perm_of_readings {α β : Type} {rename : α → α} {read read' : α → β} : ∀ {rows rows' : List α},
    (∀ r ∈ rows, ∀ r' ∈ rows', read' r' = read r → rename r = r') → (rows.map read).Perm (rows'.map read') →
    (rows.map rename).Perm rows'
  | [], rows', _, h => by
    have hnil : rows' = [] := by simpa using h.length_eq.symm
    rw [hnil, List.map_nil]
  | r :: rows, rows', hname, h => by
    obtain ⟨r', hr', hread⟩ := List.mem_map.1 (h.subset (List.mem_cons_self (a := read r)))
    obtain ⟨before, after, rfl⟩ := List.append_of_mem hr'
    have hrest : (rows.map read).Perm ((before ++ after).map read') := by
      have hmiddle : ((before ++ r' :: after).map read').Perm (read' r' :: (before ++ after).map read') :=
        List.perm_middle.map read'
      rw [hread] at hmiddle
      exact (h.trans hmiddle).cons_inv
    rw [List.map_cons, hname r List.mem_cons_self r' hr' hread]
    refine .trans (.cons r' (perm_of_readings (fun x hx y hy => ?_) hrest)) List.perm_middle.symm
    refine hname x (List.mem_cons_of_mem _ hx) y ?_
    rcases List.mem_append.1 hy with hy | hy
    · exact List.mem_append_left _ hy
    · exact List.mem_append_right _ (List.mem_cons_of_mem _ hy)

theorem location?_eq (s : Store) (p : Place) :
    s.location? p = (s.pathAt? p.file).map fun path => ⟨path, p.line, p.column⟩ := by
  unfold location? Store.pathAt?
  rw [Option.map_map]
  rfl

namespace Matches

variable {s t : Store} (hs : s.Sound) (ht : t.Sound) (h : s.Matches t)

section Ids

include hs ht

theorem entity_eq {e e' : EntityRow} (he : e ∈ s.entities) (he' : e' ∈ t.entities) (hkey : t.keyOf e' = s.keyOf e) :
    (s.renamingTo t).entity e.id = e'.id := by
  have hat : s.keyAt? e.id = some (s.keyOf e) := (keyAt?_eq_some hs).2 ⟨e, he, rfl, rfl⟩
  simp [renamingTo, hat, (row?_eq_some ht).2 ⟨he', hkey⟩]

theorem file_eq {f f' : SourceFile} (hf : f ∈ s.files) (hf' : f' ∈ t.files) (hpath : f'.path = f.path) :
    (s.renamingTo t).file f.id = f'.id := by
  have hat : s.pathAt? f.id = some f.path := (pathAt?_eq_some hs).2 hf
  simp [renamingTo, hat, (fileAt?_eq_some ht.toDistinct).2 ⟨hf', hpath⟩]

theorem unit_eq {u u' : UnitRow} (hu : u ∈ s.units) (hu' : u' ∈ t.units) (hfile : u'.indexFile = u.indexFile) :
    (s.renamingTo t).unit u.id = u'.id := by
  have hat : s.indexFileAt? u.id = some u.indexFile := (indexFileAt?_eq_some hs).2 ⟨u, hu, rfl, rfl⟩
  simp [renamingTo, hat, (unit?_eq_some ht.toDistinct).2 ⟨hu', hfile⟩]

theorem unitRow_eq {u u' : UnitRow} (hu : u ∈ s.units) (hu' : u' ∈ t.units) (hread : u'.reading = u.reading) :
    (s.renamingTo t).unitRow u = u' := by
  obtain ⟨id, file, stamp, checksum, fromBaseline⟩ := u'
  obtain ⟨rfl, rfl, rfl, rfl⟩ : file = u.indexFile ∧ stamp = u.stamp ∧ checksum = u.checksum ∧
      fromBaseline = u.fromBaseline := by
    simpa [UnitRow.reading] using hread
  simp [Renaming.unitRow, unit_eq hs ht hu hu' rfl]

end Ids

section Readings

include hs ht h

/-- An entity has a key again under its new id, and the same one. -/
theorem keyAt? {id : Int} (hid : s.HasEntity id) :
    t.HasEntity ((s.renamingTo t).entity id) ∧ t.keyAt? ((s.renamingTo t).entity id) = s.keyAt? id := by
  obtain ⟨e, he, rfl⟩ := hid
  obtain ⟨e', he', hread⟩ := List.mem_map.1 (h.entities.subset (List.mem_map_of_mem he))
  have hkey : t.keyOf e' = s.keyOf e := congrArg Prod.fst hread
  rw [entity_eq hs ht he he' hkey, (keyAt?_eq_some hs).2 ⟨e, he, rfl, rfl⟩]
  exact ⟨⟨e', he', rfl⟩, (keyAt?_eq_some ht).2 ⟨e', he', rfl, hkey⟩⟩

theorem pathAt? {id : Int} (hid : s.HasFile id) :
    t.HasFile ((s.renamingTo t).file id) ∧ t.pathAt? ((s.renamingTo t).file id) = s.pathAt? id := by
  obtain ⟨f, hf, rfl⟩ := hid
  obtain ⟨f', hf', hpath⟩ := List.mem_map.1 (h.files.subset (List.mem_map_of_mem hf))
  rw [file_eq hs ht hf hf' hpath, (pathAt?_eq_some hs).2 hf, ← hpath]
  exact ⟨⟨f', hf', rfl⟩, (pathAt?_eq_some ht).2 hf'⟩

theorem indexFileAt? {id : Int} (hid : s.HasUnit id) :
    t.HasUnit ((s.renamingTo t).unit id) ∧ t.indexFileAt? ((s.renamingTo t).unit id) = s.indexFileAt? id := by
  obtain ⟨u, hu, rfl⟩ := hid
  obtain ⟨u', hu', hread⟩ := List.mem_map.1 (h.units.subset (List.mem_map_of_mem hu))
  have hfile : u'.indexFile = u.indexFile := congrArg Prod.fst hread
  rw [unit_eq hs ht hu hu' hfile, (indexFileAt?_eq_some hs).2 ⟨u, hu, rfl, rfl⟩]
  exact ⟨⟨u', hu', rfl⟩, (indexFileAt?_eq_some ht).2 ⟨u', hu', rfl, hfile⟩⟩

/-- A unit is the one that a row of the other store names if it has the same index file. -/
theorem unit_of_indexFileAt? {i j : Int} (hi : s.HasUnit i) (hj : t.HasUnit j)
    (hfile : t.indexFileAt? j = s.indexFileAt? i) : (s.renamingTo t).unit i = j := by
  obtain ⟨-, hat⟩ := h.indexFileAt? hs ht hi
  obtain ⟨u, hu, rfl⟩ := hj
  have hju : t.indexFileAt? u.id = some u.indexFile := (indexFileAt?_eq_some ht).2 ⟨u, hu, rfl, rfl⟩
  exact indexFileAt?_inj ht (hat.trans (hfile.symm.trans hju)) hju

theorem bind_keyAt? {scope : Option Int} (hscope : ∀ id, scope = some id → s.HasEntity id) :
    (scope.map (s.renamingTo t).entity).bind t.keyAt? = scope.bind s.keyAt? := by
  cases scope with
  | none => rfl
  | some id => exact (h.keyAt? hs ht (hscope id rfl)).2

theorem bind_location? {decl : Option Place} (hdecl : s.Placed decl) :
    (decl.map (s.renamingTo t).place).bind t.location? = decl.bind s.location? := by
  cases decl with
  | none => rfl
  | some p =>
    simp only [Option.map_some, Option.bind_some, location?_eq, Renaming.place]
    rw [(h.pathAt? hs ht (hdecl p rfl).1).2]

/-! ## Rows -/

theorem entityRow_eq {e e' : EntityRow} (he : e ∈ s.entities) (he' : e' ∈ t.entities)
    (hread : t.entityReading e' = s.entityReading e) : (s.renamingTo t).entityRow e = e' := by
  have hkey : t.keyOf e' = s.keyOf e := congrArg Prod.fst hread
  have hview : t.view e' = s.view e := congrArg (fun x => x.2.1) hread
  have hid := entity_eq hs ht he he' hkey
  have hlinked := hs.entities e he
  have hlinked' := ht.entities e' he'
  have hdecl : e.decl.map (s.renamingTo t).place = e'.decl := by
    refine place_inj ht (fun p hp => ?_) hlinked'.decl ?_
    · obtain ⟨q, hq, rfl⟩ := Option.map_eq_some_iff.1 hp
      obtain ⟨hfile, hline, hcolumn⟩ := hlinked.decl q hq
      exact ⟨(h.pathAt? hs ht hfile).1, hline, hcolumn⟩
    · rw [h.bind_location? hs ht hlinked.decl]
      exact (congrArg EntityKey.decl hkey).symm
  have howner : e.owner.map (s.renamingTo t).unit = e'.owner := by
    have hfiles : e'.owner.bind t.indexFileAt? = e.owner.bind s.indexFileAt? := congrArg EntityView.owner hview
    rcases ho : e.owner with _ | i <;> rcases ho' : e'.owner with _ | j
    · rfl
    · obtain ⟨file, hfile⟩ := (hlinked'.owner j ho').1.indexFileAt? ht
      simp [ho, ho', hfile] at hfiles
    · obtain ⟨file, hfile⟩ := (hlinked.owner i ho).1.indexFileAt? hs
      simp [ho, ho', hfile] at hfiles
    · rw [ho, ho'] at hfiles
      exact congrArg some (h.unit_of_indexFileAt? hs ht (hlinked.owner i ho).1 (hlinked'.owner j ho').1 hfiles)
  have hname : e'.name = e.name := congrArg EntityKey.name hkey
  have hkind : e'.kind = e.kind := congrArg EntityView.kind hview
  have hglobal : e'.isGlobal = e.isGlobal := congrArg (fun v => v.flags.isGlobal) hview
  have hlocal : e'.isStaticLocal = e.isStaticLocal := congrArg (fun v => v.flags.isStaticLocal) hview
  have hattributes : e'.attributes = e.attributes := congrArg (fun x => x.2.2) hread
  have hdynamic : e'.dynamic = e.dynamic := congrArg EntityView.dynamic hview
  unfold Renaming.entityRow
  rw [hid, hdecl, howner, ← hname, ← hkind, ← hglobal, ← hlocal, ← hattributes, ← hdynamic]

theorem referenceRow_eq {r r' : ReferenceRow} (hr : r ∈ s.references) (hr' : r' ∈ t.references)
    (hread : (t.indexFileAt? r'.unit, t.referenceRecord? r') = (s.indexFileAt? r.unit, s.referenceRecord? r)) :
    (s.renamingTo t).referenceRow r = r' := by
  have hlinked := hs.references r hr
  obtain ⟨hfile, hrecord⟩ := Prod.mk.inj hread
  obtain ⟨hentity, hkey⟩ := h.keyAt? hs ht hlinked.entity
  obtain ⟨hhas, hpath⟩ := h.pathAt? hs ht hlinked.file
  have hnew : ((s.renamingTo t).referenceRow r).Linked t := by
    refine ⟨hentity, hhas, (h.indexFileAt? hs ht hlinked.unit).1, fun id hid => ?_, hlinked.line, hlinked.column⟩
    obtain ⟨i, hi, rfl⟩ := Option.map_eq_some_iff.1 hid
    exact (h.keyAt? hs ht (hlinked.scope i hi)).1
  refine referenceRecord?_inj ht hnew (ht.references r' hr')
    (h.unit_of_indexFileAt? hs ht hlinked.unit (ht.references r' hr').unit hfile) ?_
  rw [hrecord]
  simp only [referenceRecord?, Renaming.referenceRow, hkey, hpath, h.bind_keyAt? hs ht hlinked.scope]

theorem relationRow_eq {r r' : RelationRow} (hr : r ∈ s.relations) (hr' : r' ∈ t.relations)
    (hread : (t.indexFileAt? r'.unit, t.relationRecord? r') = (s.indexFileAt? r.unit, s.relationRecord? r)) :
    (s.renamingTo t).relationRow r = r' := by
  have hlinked := hs.relations r hr
  obtain ⟨hfile, hrecord⟩ := Prod.mk.inj hread
  obtain ⟨hsource, hkey⟩ := h.keyAt? hs ht hlinked.source
  obtain ⟨htarget, hkey'⟩ := h.keyAt? hs ht hlinked.target
  refine relationRecord?_inj ht ⟨hsource, htarget, (h.indexFileAt? hs ht hlinked.unit).1⟩ (ht.relations r' hr')
    (h.unit_of_indexFileAt? hs ht hlinked.unit (ht.relations r' hr').unit hfile) ?_
  rw [hrecord]
  simp only [relationRecord?, Renaming.relationRow, hkey, hkey']

theorem dependencyRow_eq {d d' : DependencyRow} (hd : d ∈ s.dependencies) (hd' : d' ∈ t.dependencies)
    (hread : (t.indexFileAt? d'.unit, t.dependencyPaths? d') = (s.indexFileAt? d.unit, s.dependencyPaths? d)) :
    (s.renamingTo t).dependencyRow d = d' := by
  have hlinked := hs.dependencies d hd
  obtain ⟨hfile, hpaths⟩ := Prod.mk.inj hread
  obtain ⟨hsource, hpath⟩ := h.pathAt? hs ht hlinked.source
  obtain ⟨htarget, hpath'⟩ := h.pathAt? hs ht hlinked.target
  have hdistinct : (s.renamingTo t).file d.source ≠ (s.renamingTo t).file d.target := by
    intro heq
    refine hlinked.distinct (pathAt?_inj hs hlinked.source hlinked.target ?_)
    rw [← hpath, ← hpath', heq]
  refine dependencyPaths?_inj ht ⟨hsource, htarget, hdistinct, (h.indexFileAt? hs ht hlinked.unit).1⟩
    (ht.dependencies d' hd') (h.unit_of_indexFileAt? hs ht hlinked.unit (ht.dependencies d' hd').unit hfile) ?_
  rw [hpaths]
  simp only [dependencyPaths?, Renaming.dependencyRow, hpath, hpath']

/-- Stores whose rows read the same are equal up to their ids. -/
theorem renames : (s.renamingTo t).Renames s t where
  entityIds i j hi hj heq := by
    refine keyAt?_inj hs hi hj ?_
    rw [← (h.keyAt? hs ht hi).2, ← (h.keyAt? hs ht hj).2, heq]
  fileIds i j hi hj heq := by
    refine pathAt?_inj hs hi hj ?_
    rw [← (h.pathAt? hs ht hi).2, ← (h.pathAt? hs ht hj).2, heq]
  unitIds i j hi hj heq := by
    obtain ⟨file, hfile⟩ := hj.indexFileAt? hs
    refine indexFileAt?_inj hs ?_ hfile
    rw [← (h.indexFileAt? hs ht hi).2, heq, (h.indexFileAt? hs ht hj).2, hfile]
  units := perm_of_readings (fun _ hu _ hu' => unitRow_eq hs ht hu hu') h.units
  files := perm_of_readings (fun f hf f' hf' hpath => by
    rw [Renaming.sourceFile, file_eq hs ht hf hf' hpath, ← hpath]) h.files
  entities := perm_of_readings (fun _ he _ he' => h.entityRow_eq hs ht he he') h.entities
  references := perm_of_readings (fun _ hr _ hr' => h.referenceRow_eq hs ht hr hr') h.references
  relations := perm_of_readings (fun _ hr _ hr' => h.relationRow_eq hs ht hr hr') h.relations
  dependencies := perm_of_readings (fun _ hd _ hd' => h.dependencyRow_eq hs ht hd hd') h.dependencies
  kinds := h.kinds
  generation := h.generation

end Readings

end Matches

end Store

end CrossIndex
