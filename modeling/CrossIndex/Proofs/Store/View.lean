/-
What a store says free of ids: entities by key, with the index file of their owner, and the rows of a
unit by its index file. Main statements: what writing a unit, pruning a unit and purging orphans do to
these. A write decides about each key from what the unit says of the key and from how the key stood
before; a deletion leaves the rows of a unit alone if it spares the keys that the unit mentions.
-/
import CrossIndex.Proofs.Store.Draft

namespace CrossIndex

/-- An entity without its id and its key. -/
structure EntityView where
  kind : String
  flags : EntityFlags
  /-- The index file of the owner. -/
  owner : Option String
  dynamic : Bool

/-- The view of an entity of which nothing but its key is known. -/
def EntityView.stub : EntityView :=
  ⟨"", {}, none, false⟩

/-- What a record in the unit with an index file does to a view. -/
def EntityRecord.putView (r : EntityRecord) (own : Bool) (file : String) (v : EntityView) : EntityView :=
  if own || v.kind.isEmpty then
    ⟨r.kind, r.flags, if own then some file else v.owner, v.dynamic && !own⟩
  else v

namespace UnitRecord

variable (canon : String → String) (u : UnitRecord) (k : EntityKey)

/-- A unit records an entity. -/
def Records : Prop := k ∈ u.recorded.map (EntityKey.stored canon)

/-- A unit mentions an entity in a reference, a scope or a relation. -/
def Mentions : Prop := k ∈ u.mentioned.map (EntityKey.stored canon)

/-- A unit records or mentions an entity. -/
def Touches : Prop := k ∈ (u.recorded ++ u.mentioned).map (EntityKey.stored canon)

/-- An entity is declared in one of the source files of a unit. -/
def Lists : Prop := k.within (u.sourceFiles.map canon) = true

/-- What the records of a unit do to the view of a key. -/
def putView (v : EntityView) : EntityView :=
  u.entities.foldl (fun v r => if r.key.stored canon = k then
    r.putView (k.within (u.sourceFiles.map canon)) u.indexFile v else v) v

end UnitRecord

namespace Store

/-- The view of a row. -/
def view (s : Store) (e : EntityRow) : EntityView :=
  ⟨e.kind, e.flags, e.owner.bind s.indexFileAt?, e.dynamic⟩

/-- The view of the entity with a key. -/
def view? (s : Store) (k : EntityKey) : Option EntityView :=
  (s.row? k).map s.view

/-- What the rows of a table read back as that belong to the unit with an index file. -/
def ofUnit {α β : Type} (s : Store) (unit : α → Int) (read : α → β) (rows : List α) (file : String) : List β :=
  (rows.filter fun r => s.indexFileAt? (unit r) == some file).map read

/-- The rows of a unit read back as its records. -/
structure Holds (canon : String → String) (s : Store) (u : UnitRecord) : Prop where
  references : s.ofUnit ReferenceRow.unit s.referenceRecord? s.references u.indexFile =
    u.references.map fun r => some (r.stored canon)
  relations : s.ofUnit RelationRow.unit s.relationRecord? s.relations u.indexFile =
    u.relations.map fun r => some (r.stored canon)
  dependencies : (s.ofUnit DependencyRow.unit s.dependencyPaths? s.dependencies u.indexFile).Perm
    ((u.dependencies.flatMap fun path => Writer.dependenciesOn (u.sourceFiles.map canon) (canon path)).map some)

variable {canon : String → String} {s t : Store}

/-! ## Units -/

theorem indexFileAt?_inj (hs : s.Sound) {i j : Int} {file : String} (hi : s.indexFileAt? i = some file)
    (hj : s.indexFileAt? j = some file) : i = j := by
  obtain ⟨u, hu, rfl, hfu⟩ := (indexFileAt?_eq_some hs).1 hi
  obtain ⟨v, hv, rfl, hfv⟩ := (indexFileAt?_eq_some hs).1 hj
  rw [List.inj_on_of_nodup_map hs.indexFiles hu hv (hfu.trans hfv.symm)]

theorem Grows.indexFileAt? (hg : s.Grows t) (hs : s.Sound) (ht : t.Sound) {id : Int} (h : s.HasUnit id) :
    t.indexFileAt? id = s.indexFileAt? id := by
  obtain ⟨u, hu, rfl⟩ := h
  obtain ⟨u', hu', hid, hfile⟩ := hg.units u hu
  rw [(indexFileAt?_eq_some hs).2 ⟨u, hu, rfl, rfl⟩, (indexFileAt?_eq_some ht).2 ⟨u', hu', hid, hfile⟩]

theorem Grows.view (hg : s.Grows t) (hs : s.Sound) (ht : t.Sound) {e : EntityRow} (he : e.Linked s) :
    t.view e = s.view e := by
  unfold Store.view
  congr 1
  rcases ho : e.owner with _ | id
  · rfl
  · exact hg.indexFileAt? hs ht (he.owner id ho).1

/-- Entering a unit gives it a new row and leaves the other rows alone. -/
theorem mem_enterUnit (hs : s.Sound) (u : UnitRecord) {row : UnitRow} : row ∈ (s.enterUnit u).2.units ↔
    row = ⟨(s.enterUnit u).1, u.indexFile, u.stamp, u.checksum, false⟩ ∨
      (row ∈ s.units ∧ row.indexFile ≠ u.indexFile) := by
  unfold enterUnit
  rcases hu : s.unit? u.indexFile with _ | old
  · have hfile : u.indexFile ∉ s.units.map UnitRow.indexFile := unit?_eq_none.1 hu
    have hne : row ∈ s.units → row.indexFile ≠ u.indexFile := fun h he => hfile (List.mem_map.2 ⟨row, h, he⟩)
    simp only [List.mem_append, List.mem_singleton]
    tauto
  · obtain ⟨hold, hfile⟩ := (unit?_eq_some hs.toDistinct).1 hu
    simp only [List.mem_map]
    constructor
    · rintro ⟨r, hr, rfl⟩
      by_cases hid : r.id = old.id
      · obtain rfl := List.inj_on_of_nodup_map hs.unitIds hr hold hid
        exact .inl (by simp [hfile])
      · have hne : r.indexFile ≠ u.indexFile := fun he =>
          hid (by rw [List.inj_on_of_nodup_map hs.indexFiles hr hold (he.trans hfile.symm)])
        exact .inr (by simpa [hid] using ⟨hr, hne⟩)
    · rintro (rfl | ⟨hr, hne⟩)
      · exact ⟨old, hold, by simp [hfile]⟩
      · have hid : row.id ≠ old.id := fun he =>
          hne (by rw [List.inj_on_of_nodup_map hs.unitIds hr hold he]; exact hfile)
        exact ⟨row, hr, by simp [hid]⟩

/-! ## Deletions -/

theorem row?_deleteEntities (hs : s.Sound) (gone : Int → Bool) (k : EntityKey) :
    (s.deleteEntities gone).row? k = (s.row? k).filter fun e => !gone e.id := by
  apply Option.ext
  intro e
  rw [row?_eq_some (deleteEntities_sound hs gone), Option.filter_eq_some_iff, row?_eq_some hs]
  show e ∈ s.entities.filter _ ∧ s.keyOf e = k ↔ _
  rw [List.mem_filter]
  tauto

theorem keyAt?_deleteEntities (hs : s.Sound) {gone : Int → Bool} {id : Int} (hid : gone id = false) :
    (s.deleteEntities gone).keyAt? id = s.keyAt? id := by
  apply Option.ext
  intro k
  rw [keyAt?_eq_some (deleteEntities_sound hs gone), keyAt?_eq_some hs]
  constructor
  · rintro ⟨e, he, h⟩
    exact ⟨e, List.mem_of_mem_filter he, h⟩
  · rintro ⟨e, he, rfl, h⟩
    exact ⟨e, List.mem_filter.2 ⟨he, by simp [hid]⟩, rfl, h⟩

/-- No entity that a unit mentions is deleted. -/
def Spares (canon : String → String) (s : Store) (gone : Int → Bool) (u : UnitRecord) : Prop :=
  ∀ k, u.Mentions canon k → ∀ id, s.Names id k → gone id = false

theorem mem_ofUnit {α β : Type} {unit : α → Int} {read : α → β} {rows : List α} {file : String} {b : β} :
    b ∈ s.ofUnit unit read rows file ↔ ∃ r ∈ rows, s.indexFileAt? (unit r) = some file ∧ read r = b := by
  simp [ofUnit, and_assoc]

theorem ofUnit_map {α β : Type} {unit : α → Int} {read : α → β} {rows : List α} {change : α → α} {file : String}
    (h : ∀ r, unit (change r) = unit r) :
    s.ofUnit unit read (rows.map change) file = s.ofUnit unit (fun r => read (change r)) rows file := by
  unfold ofUnit
  rw [List.filter_map, List.map_map]
  simp only [Function.comp_def, h]

theorem ofUnit_filter {α β : Type} {unit : α → Int} {read : α → β} {rows : List α} {keep : α → Bool} {file : String}
    (h : ∀ r ∈ rows, s.indexFileAt? (unit r) = some file → keep r = true) :
    s.ofUnit unit read (rows.filter keep) file = s.ofUnit unit read rows file := by
  unfold ofUnit
  rw [List.filter_filter]
  congr 1
  apply List.filter_congr
  intro r hr
  by_cases hf : s.indexFileAt? (unit r) = some file
  · simp [hf, h r hr hf]
  · simp [hf]

theorem ofUnit_congr {α β : Type} {unit : α → Int} {read read' : α → β} {rows : List α} {file : String}
    (hunit : ∀ r ∈ rows, t.indexFileAt? (unit r) = some file ↔ s.indexFileAt? (unit r) = some file)
    (hread : ∀ r ∈ rows, s.indexFileAt? (unit r) = some file → read' r = read r) :
    t.ofUnit unit read' rows file = s.ofUnit unit read rows file := by
  unfold ofUnit
  have hrows : (rows.filter fun r => t.indexFileAt? (unit r) == some file) =
      rows.filter fun r => s.indexFileAt? (unit r) == some file := by
    apply List.filter_congr
    intro r hr
    rw [Bool.eq_iff_iff, beq_iff_eq, beq_iff_eq]
    exact hunit r hr
  rw [hrows]
  apply List.map_congr_left
  intro r hr
  obtain ⟨hr, hf⟩ := List.mem_filter.1 hr
  exact hread r hr (by simpa using hf)

namespace Holds

variable {u : UnitRecord} {gone : Int → Bool}

theorem reference (h : s.Holds canon u) {r : ReferenceRow} (hr : r ∈ s.references)
    (hf : s.indexFileAt? r.unit = some u.indexFile) :
    ∃ r' ∈ u.references, s.referenceRecord? r = some (r'.stored canon) := by
  have hm : s.referenceRecord? r ∈ s.ofUnit ReferenceRow.unit s.referenceRecord? s.references u.indexFile :=
    mem_ofUnit.2 ⟨r, hr, hf, rfl⟩
  rw [h.references] at hm
  obtain ⟨r', hr', he⟩ := List.mem_map.1 hm
  exact ⟨r', hr', he.symm⟩

theorem relation (h : s.Holds canon u) {r : RelationRow} (hr : r ∈ s.relations)
    (hf : s.indexFileAt? r.unit = some u.indexFile) :
    ∃ r' ∈ u.relations, s.relationRecord? r = some (r'.stored canon) := by
  have hm : s.relationRecord? r ∈ s.ofUnit RelationRow.unit s.relationRecord? s.relations u.indexFile :=
    mem_ofUnit.2 ⟨r, hr, hf, rfl⟩
  rw [h.relations] at hm
  obtain ⟨r', hr', he⟩ := List.mem_map.1 hm
  exact ⟨r', hr', he.symm⟩

/-- Whatever a reference of the unit names, the unit mentions. -/
theorem names_reference (hs : s.Sound) (h : s.Holds canon u) {r : ReferenceRow} (hr : r ∈ s.references)
    (hf : s.indexFileAt? r.unit = some u.indexFile) {id : Int} (hid : r.entity = id ∨ r.scope = some id) :
    ∃ k, u.Mentions canon k ∧ s.Names id k := by
  obtain ⟨r', hr', hread⟩ := h.reference hr hf
  obtain ⟨hentity, -, hscope⟩ := referenceRecord?_eq_some hs hread
  have hmem : ∀ key ∈ r'.keys, u.Mentions canon (key.stored canon) := fun key hk =>
    List.mem_map_of_mem (List.mem_append_left _ (List.mem_flatMap.2 ⟨r', hr', hk⟩))
  rcases hid with rfl | hid
  · exact ⟨_, hmem r'.entity List.mem_cons_self, hentity⟩
  · obtain ⟨k, hk⟩ := (hs.references r hr).scope id hid |>.names
    rw [hid, Option.bind_some, (keyAt?_eq_some hs).2 hk] at hscope
    obtain ⟨key, hkey, rfl⟩ := Option.map_eq_some_iff.1 hscope.symm
    exact ⟨_, hmem key (List.mem_cons_of_mem _ (by simp [hkey])), hk⟩

/-- Whatever a relation of the unit names, the unit mentions. -/
theorem names_relation (hs : s.Sound) (h : s.Holds canon u) {r : RelationRow} (hr : r ∈ s.relations)
    (hf : s.indexFileAt? r.unit = some u.indexFile) {id : Int} (hid : r.source = id ∨ r.target = id) :
    ∃ k, u.Mentions canon k ∧ s.Names id k := by
  obtain ⟨r', hr', hread⟩ := h.relation hr hf
  obtain ⟨hsource, htarget⟩ := relationRecord?_eq_some hs hread
  have hmem : ∀ key ∈ r'.keys, u.Mentions canon (key.stored canon) := fun key hk =>
    List.mem_map_of_mem (List.mem_append_right _ (List.mem_flatMap.2 ⟨r', hr', hk⟩))
  rcases hid with rfl | rfl
  · exact ⟨_, hmem r'.source (by simp [RelationRecord.keys]), hsource⟩
  · exact ⟨_, hmem r'.target (by simp [RelationRecord.keys]), htarget⟩

/-- Whatever the unit mentions is there, and a row mentions it. -/
theorem isMentioned (hs : s.Sound) (h : s.Holds canon u) {k : EntityKey} (hk : u.Mentions canon k) :
    ∃ id, s.Names id k ∧ s.isMentioned id = true := by
  obtain ⟨key, hkey, rfl⟩ := List.mem_map.1 hk
  rcases List.mem_append.1 hkey with hkey | hkey
  · obtain ⟨r', hr', hkey⟩ := List.mem_flatMap.1 hkey
    have hread : some (r'.stored canon) ∈ s.ofUnit ReferenceRow.unit s.referenceRecord? s.references u.indexFile := by
      rw [h.references]
      exact List.mem_map.2 ⟨r', hr', rfl⟩
    obtain ⟨r, hr, -, hread⟩ := mem_ofUnit.1 hread
    obtain ⟨hentity, -, hscope⟩ := referenceRecord?_eq_some hs hread
    have hany : ∀ id, r.entity = id ∨ r.scope = some id → s.isMentioned id = true := fun id hid => by
      simp only [Store.isMentioned, Bool.or_eq_true, List.any_eq_true]
      exact .inl ⟨r, hr, by simpa using hid⟩
    rcases List.mem_cons.1 hkey with rfl | hkey
    · exact ⟨r.entity, hentity, hany _ (.inl rfl)⟩
    · have hsome : r'.scope = some key := by simpa using hkey
      have hbind : r.scope.bind s.keyAt? = some (key.stored canon) := by
        rw [hscope]
        simp [ReferenceRecord.stored, hsome]
      obtain ⟨id, hid, hid'⟩ := Option.bind_eq_some_iff.1 hbind
      exact ⟨id, (keyAt?_eq_some hs).1 hid', hany _ (.inr hid)⟩
  · obtain ⟨r', hr', hkey⟩ := List.mem_flatMap.1 hkey
    have hread : some (r'.stored canon) ∈ s.ofUnit RelationRow.unit s.relationRecord? s.relations u.indexFile := by
      rw [h.relations]
      exact List.mem_map.2 ⟨r', hr', rfl⟩
    obtain ⟨r, hr, -, hread⟩ := mem_ofUnit.1 hread
    obtain ⟨hsource, htarget⟩ := relationRecord?_eq_some hs hread
    have hany : ∀ id, r.source = id ∨ r.target = id → s.isMentioned id = true := fun id hid => by
      simp only [Store.isMentioned, Bool.or_eq_true, List.any_eq_true]
      exact .inr ⟨r, hr, by simpa using hid⟩
    simp only [RelationRecord.keys, List.mem_cons, List.not_mem_nil, or_false] at hkey
    rcases hkey with rfl | rfl
    · exact ⟨r.source, hsource, hany _ (.inl rfl)⟩
    · exact ⟨r.target, htarget, hany _ (.inr rfl)⟩

/-- A deletion that spares what a unit mentions leaves the rows of the unit alone. -/
theorem deleteEntities (hs : s.Sound) (h : s.Holds canon u) (hspare : s.Spares canon gone u) :
    (s.deleteEntities gone).Holds canon u := by
  have hentity : ∀ r ∈ s.references, s.indexFileAt? r.unit = some u.indexFile → ∀ id,
      r.entity = id ∨ r.scope = some id → gone id = false := by
    intro r hr hf id hid
    obtain ⟨k, hk, hn⟩ := h.names_reference hs hr hf hid
    exact hspare k hk id hn
  have hends : ∀ r ∈ s.relations, s.indexFileAt? r.unit = some u.indexFile → ∀ id,
      r.source = id ∨ r.target = id → gone id = false := by
    intro r hr hf id hid
    obtain ⟨k, hk, hn⟩ := h.names_relation hs hr hf hid
    exact hspare k hk id hn
  refine ⟨?_, ?_, ?_⟩
  · rw [← h.references]
    -- a reference that stays would lose a deleted scope, so the scopes count as well
    refine (ofUnit_map fun r => ?_).trans ((ofUnit_filter fun r hr hf => ?_).trans
      (ofUnit_congr (fun _ _ => Iff.rfl) fun r hr hf => ?_))
    · split <;> rfl
    · simp [hentity r hr hf r.entity (.inl rfl)]
    · have hscope : r.scope.any gone = false := by
        rcases hsc : r.scope with _ | id
        · rfl
        · exact hentity r hr hf id (.inr hsc)
      have hbind : r.scope.bind (s.deleteEntities gone).keyAt? = r.scope.bind s.keyAt? := by
        rcases hsc : r.scope with _ | id
        · rfl
        · exact keyAt?_deleteEntities hs (hentity r hr hf id (.inr hsc))
      simp only [hscope, Bool.false_eq_true, if_false]
      unfold referenceRecord?
      rw [keyAt?_deleteEntities hs (hentity r hr hf _ (.inl rfl)), hbind]
      rfl
  · rw [← h.relations]
    refine (ofUnit_filter fun r hr hf => ?_).trans (ofUnit_congr (fun _ _ => Iff.rfl) fun r hr hf => ?_)
    · simp [hends r hr hf r.source (.inl rfl), hends r hr hf r.target (.inr rfl)]
    · unfold relationRecord?
      rw [keyAt?_deleteEntities hs (hends r hr hf _ (.inl rfl)), keyAt?_deleteEntities hs (hends r hr hf _ (.inr rfl))]
  · exact h.dependencies

/-- The rows of a unit stay when those of another one go. -/
theorem deleteUnitRows (h : s.Holds canon u) {id : Int} (hid : s.indexFileAt? id ≠ some u.indexFile) :
    (s.deleteUnitRows id).Holds canon u := by
  have hne : ∀ i, s.indexFileAt? i = some u.indexFile → (i != id) = true := by
    intro i hi
    rw [bne_iff_ne]
    rintro rfl
    exact hid hi
  refine ⟨?_, ?_, ?_⟩
  · rw [← h.references]
    exact ofUnit_filter fun r _ hf => hne r.unit hf
  · rw [← h.relations]
    exact ofUnit_filter fun r _ hf => hne r.unit hf
  · refine List.Perm.trans (List.Perm.of_eq ?_) h.dependencies
    exact ofUnit_filter fun r _ hf => hne r.unit hf

/-- Only the index files of the units count. -/
theorem of_units (h : s.Holds canon u) {units : List UnitRow}
    (hunits : ∀ id, indexFileAt? { s with units := units } id = some u.indexFile ↔
      s.indexFileAt? id = some u.indexFile) :
    Holds canon { s with units := units } u := by
  refine ⟨?_, ?_, ?_⟩
  · rw [← h.references]
    exact ofUnit_congr (fun r _ => hunits r.unit) fun _ _ _ => rfl
  · rw [← h.relations]
    exact ofUnit_congr (fun r _ => hunits r.unit) fun _ _ _ => rfl
  · refine List.Perm.trans (List.Perm.of_eq ?_) h.dependencies
    exact ofUnit_congr (fun r _ => hunits r.unit) fun _ _ _ => rfl

end Holds

/-! ## Pruning a unit -/

theorem indexFileAt?_dropUnit (s : Store) (unit id : Int) :
    indexFileAt? { s with units := s.units.filter fun u => u.id != unit } id =
      if id = unit then none else s.indexFileAt? id := by
  unfold indexFileAt?
  rw [List.find?_filter]
  split
  · rename_i hid
    rw [hid, List.find?_eq_none.2, Option.map_none]
    simp
  · rename_i hid
    congr 2
    funext u
    rw [Bool.eq_iff_iff]
    simp only [bne_iff_ne, ne_eq, decide_eq_true_eq, beq_iff_eq]
    constructor
    · exact fun h => h.2
    · exact fun h => ⟨fun hu => hid (h.symm.trans hu), h⟩

theorem mem_deleteUnit (hs : s.Sound) {row : UnitRow} (hrow : row ∈ s.units) {r : UnitRow} :
    r ∈ (s.deleteUnit row.id).units ↔ r ∈ s.units ∧ r.indexFile ≠ row.indexFile := by
  show r ∈ s.units.filter _ ↔ _
  rw [List.mem_filter, bne_iff_ne]
  refine and_congr_right fun hr => not_congr ?_
  constructor
  · intro h
    rw [List.inj_on_of_nodup_map hs.unitIds hr hrow h]
  · intro h
    rw [List.inj_on_of_nodup_map hs.indexFiles hr hrow h]

/-- A unit is the owner of an entity exactly if its index file is that of the owner. -/
theorem owner_eq_iff (hs : s.Sound) {e : EntityRow} {row : UnitRow} (hrow : row ∈ s.units) :
    e.owner = some row.id ↔ (s.view e).owner = some row.indexFile := by
  have hfile : s.indexFileAt? row.id = some row.indexFile := (indexFileAt?_eq_some hs).2 ⟨row, hrow, rfl, rfl⟩
  show _ ↔ e.owner.bind s.indexFileAt? = _
  constructor
  · intro h
    rw [h, Option.bind_some, hfile]
  · intro h
    obtain ⟨id, hid, hf⟩ := Option.bind_eq_some_iff.1 h
    rw [hid, indexFileAt?_inj hs hf hfile]

theorem id_mem_ownedBy (hs : s.Sound) {e : EntityRow} (he : e ∈ s.entities) {unit : Int} :
    e.id ∈ s.ownedBy unit ↔ e.owner = some unit := by
  rw [mem_ownedBy]
  constructor
  · rintro ⟨e', he', ho, hid⟩
    rw [← List.inj_on_of_nodup_map hs.entityIds he' he hid]
    exact ho
  · intro ho
    exact ⟨e, he, ho, rfl⟩

/-- Pruning a unit takes along the entities that it owns, and no others. -/
theorem view?_deleteUnit (hs : s.Sound) {row : UnitRow} (hrow : row ∈ s.units) (k : EntityKey) :
    (s.deleteUnit row.id).view? k = (s.view? k).filter fun v => v.owner ≠ some row.indexFile := by
  have hrow? : (s.deleteUnit row.id).row? k = (s.row? k).filter fun e => !(s.ownedBy row.id).contains e.id :=
    row?_deleteEntities hs _ k
  unfold view?
  rw [hrow?]
  rcases hr : s.row? k with _ | e
  · rfl
  · have howned := (id_mem_ownedBy hs ((row?_eq_some hs).1 hr).1).trans (owner_eq_iff hs hrow)
    rw [Option.map_some, Option.filter_some, Option.filter_some]
    by_cases ho : (s.view e).owner = some row.indexFile
    · simp [howned.2 ho, ho]
    · have hview : (s.deleteUnit row.id).view e = s.view e := by
        unfold view
        congr 1
        rcases heo : e.owner with _ | id
        · rfl
        · have hne : id ≠ row.id := by
            rintro rfl
            exact ho ((owner_eq_iff hs hrow).1 heo)
          refine (indexFileAt?_dropUnit _ row.id id).trans ?_
          rw [if_neg hne]
          rfl
      simp [mt howned.1 ho, ho, hview]

/-- Pruning a unit leaves the rows of another one alone if that one mentions nothing of what goes. -/
theorem Holds.deleteUnit (hs : s.Sound) {u : UnitRecord} (h : s.Holds canon u) {row : UnitRow} (hrow : row ∈ s.units)
    (hne : row.indexFile ≠ u.indexFile)
    (hspare : ∀ k, u.Mentions canon k → ∀ v, s.view? k = some v → v.owner ≠ some row.indexFile) :
    (s.deleteUnit row.id).Holds canon u := by
  have hfile : s.indexFileAt? row.id = some row.indexFile := (indexFileAt?_eq_some hs).2 ⟨row, hrow, rfl, rfl⟩
  have hid : s.indexFileAt? row.id ≠ some u.indexFile := by
    rw [hfile]
    simpa using hne
  refine ((h.deleteUnitRows hid).deleteEntities (deleteUnitRows_sound hs row.id) ?_).of_units fun id => ?_
  · rintro k hk id ⟨e, he, rfl, hke⟩
    rw [← Bool.not_eq_true, List.contains_iff_mem, id_mem_ownedBy hs he, owner_eq_iff hs hrow]
    have hr : s.row? k = some e := (row?_eq_some hs).2 ⟨he, hke⟩
    exact hspare k hk _ (by rw [view?, hr, Option.map_some])
  · rw [indexFileAt?_dropUnit]
    show (if id = row.id then none else s.indexFileAt? id) = some u.indexFile ↔ s.indexFileAt? id = some u.indexFile
    split
    · rename_i hr
      subst hr
      exact ⟨fun h => (by cases h), fun h => absurd h hid⟩
    · exact Iff.rfl

/-! ## Purging orphans -/

theorem id_mem_orphans (hs : s.Sound) {e : EntityRow} (he : e ∈ s.entities) :
    e.id ∈ (s.entities.filter s.isOrphan).map EntityRow.id ↔ s.isOrphan e = true := by
  rw [List.mem_map]
  constructor
  · rintro ⟨e', he', hid⟩
    obtain ⟨he', ho⟩ := List.mem_filter.1 he'
    rw [← List.inj_on_of_nodup_map hs.entityIds he' he hid]
    exact ho
  · intro ho
    exact ⟨e, List.mem_filter.2 ⟨he, ho⟩, rfl⟩

theorem row?_purgeOrphans (hs : s.Sound) (k : EntityKey) :
    s.purgeOrphans.row? k = (s.row? k).filter fun e => !s.isOrphan e := by
  unfold purgeOrphans
  rw [row?_deleteEntities hs]
  rcases hr : s.row? k with _ | e
  · rfl
  · have horphan := id_mem_orphans hs ((row?_eq_some hs).1 hr).1
    rw [Option.filter_some, Option.filter_some]
    by_cases ho : s.isOrphan e = true
    · simp only [List.contains_iff_mem.2 (horphan.2 ho), ho]
    · have hno : e.id ∉ (s.entities.filter s.isOrphan).map EntityRow.id := mt horphan.1 ho
      rw [← List.contains_iff_mem] at hno
      simp only [hno, ho]

/-- Purging leaves the rows of a unit alone: what a unit mentions is no orphan. -/
theorem Holds.purgeOrphans (hs : s.Sound) {u : UnitRecord} (h : s.Holds canon u) : s.purgeOrphans.Holds canon u := by
  refine h.deleteEntities hs fun k hk id hid => ?_
  obtain ⟨id', hid', hm⟩ := h.isMentioned hs hk
  obtain rfl := (hid.id_eq_iff hs hid').2 rfl
  rw [← Bool.not_eq_true, List.contains_iff_mem, List.mem_map]
  rintro ⟨e, he, rfl⟩
  have horphan := (List.mem_filter.1 he).2
  simp [isOrphan, hm] at horphan

/-! ## Writing a unit -/

theorem view_stub (s : Store) (name : String) (decl : Option Place) (id : Int) :
    s.view (stub name decl id) = .stub := by
  have hflags : (stub name decl id).flags = {} := EntityFlags.unpacked_packed {}
  unfold view
  rw [hflags]
  rfl

theorem view_put {unit : Int} {file : String} (hunit : s.indexFileAt? unit = some file) (r : EntityRecord) (own : Bool)
    (e : EntityRow) : s.view (r.put own unit e) = r.putView own file (s.view e) := by
  unfold EntityRecord.put EntityRecord.putView
  show _ = if (own || e.kind.isEmpty) = true then _ else _
  split
  · have hflags : (r.describe (if own then some unit else none) e).flags = r.flags :=
      EntityFlags.unpacked_packed r.flags
    unfold view
    rw [hflags]
    cases own with
    | true => simp [EntityRecord.describe, hunit]
    | false => simp [EntityRecord.describe]
  · rfl

theorem view_putAll {unit : Int} {file : String} (hunit : s.indexFileAt? unit = some file) {files : List String}
    {k : EntityKey} : ∀ (rs : List EntityRecord) (e : EntityRow),
    s.view (Writer.putAll canon files unit rs k e) = rs.foldl (fun v r => if r.key.stored canon = k then
      r.putView (k.within files) file v else v) (s.view e)
  | [], _ => rfl
  | r :: rs, e => by
    unfold Writer.putAll
    rw [List.foldl_cons, List.foldl_cons]
    refine (view_putAll hunit rs _).trans ?_
    congr 1
    split
    · exact view_put hunit r _ e
    · rfl

/-- A write drops an entity: the unit owned it and no longer touches it as one of its own. -/
def Drops (canon : String → String) (s : Store) (u : UnitRecord) (k : EntityKey) : Prop :=
  (∃ v, s.view? k = some v ∧ v.owner = some u.indexFile) ∧ ¬ (u.Touches canon k ∧ u.Lists canon k)

/-- What writing a unit does, by key and index file. -/
structure Replaced (canon : String → String) (s : Store) (u : UnitRecord) (t : Store) : Prop where
  sound : t.Sound
  units : ∃ id, ∀ row, row ∈ t.units ↔
    row = ⟨id, u.indexFile, u.stamp, u.checksum, false⟩ ∨ (row ∈ s.units ∧ row.indexFile ≠ u.indexFile)
  dropped : ∀ k, s.Drops canon u k → t.view? k = none
  touched : ∀ k, ¬ s.Drops canon u k → u.Touches canon k →
    t.view? k = some (u.putView canon k ((s.view? k).getD .stub))
  other : ∀ k, ¬ s.Drops canon u k → ¬ u.Touches canon k → t.view? k = s.view? k
  holds : (∀ k, u.Mentions canon k → ¬ s.Drops canon u k) → t.Holds canon u
  others : ∀ u', u'.indexFile ≠ u.indexFile → s.Holds canon u' → (∀ k, u'.Mentions canon k → ¬ s.Drops canon u k) →
    t.Holds canon u'

/-- The id of the entered unit belonged to its index file before, if it was in use. -/
theorem eq_enterUnit_iff (hs : s.Sound) (u : UnitRecord) {id : Int} (hid : s.HasUnit id) :
    id = (s.enterUnit u).1 ↔ s.indexFileAt? id = some u.indexFile := by
  obtain ⟨hs', hg, hm⟩ := enterUnit_spec hs u
  have hfile : (s.enterUnit u).2.indexFileAt? (s.enterUnit u).1 = some u.indexFile :=
    (indexFileAt?_eq_some hs').2 ⟨_, hm, rfl, rfl⟩
  rw [← hg.indexFileAt? hs hs' hid]
  constructor
  · rintro rfl
    exact hfile
  · intro h
    exact indexFileAt?_inj hs' h hfile

theorem ofUnit_replace {α β : Type} {unit : α → Int} {read : α → β} {rows new : List α} {id : Int} {file : String}
    (hs : s.Sound) (hid : s.indexFileAt? id = some file) (hnew : ∀ r ∈ new, unit r = id) :
    s.ofUnit unit read ((rows.filter fun r => unit r != id) ++ new) file = new.map read := by
  unfold ofUnit
  have hold : (rows.filter fun r => unit r != id).filter (fun r => s.indexFileAt? (unit r) == some file) = [] := by
    rw [List.filter_eq_nil_iff]
    intro r hr hf
    have hne := (List.mem_filter.1 hr).2
    rw [indexFileAt?_inj hs (beq_iff_eq.1 hf) hid] at hne
    simp at hne
  have hall : new.filter (fun r => s.indexFileAt? (unit r) == some file) = new := by
    rw [List.filter_eq_self]
    intro r hr
    rw [hnew r hr, hid, beq_self_eq_true]
  rw [List.filter_append, hold, hall, List.nil_append]

theorem ofUnit_replace_other {α β : Type} {unit : α → Int} {read read' : α → β} {rows new : List α} {id : Int}
    {file file' : String} (hs : s.Sound) (ht : t.Sound) (hg : s.Grows t) (hid : t.indexFileAt? id = some file)
    (hnew : ∀ r ∈ new, unit r = id) (hne : file' ≠ file) (hrows : ∀ r ∈ rows, s.HasUnit (unit r) ∧ read' r = read r) :
    t.ofUnit unit read' ((rows.filter fun r => unit r != id) ++ new) file' = s.ofUnit unit read rows file' := by
  have hnil : t.ofUnit unit read' new file' = [] := by
    unfold ofUnit
    rw [List.map_eq_nil_iff, List.filter_eq_nil_iff]
    intro r hr
    rw [hnew r hr, hid]
    simpa using Ne.symm hne
  have happend : t.ofUnit unit read' ((rows.filter fun r => unit r != id) ++ new) file' =
      t.ofUnit unit read' (rows.filter fun r => unit r != id) file' := by
    rw [ofUnit, List.filter_append, List.map_append]
    exact (congrArg _ hnil).trans (List.append_nil _)
  rw [happend]
  refine (ofUnit_filter fun r hr hf => ?_).trans (ofUnit_congr (fun r hr => ?_) fun r hr _ => (hrows r hr).2)
  · rw [bne_iff_ne]
    intro hu
    rw [hu, hid, Option.some.injEq] at hf
    exact hne hf.symm
  · rw [hg.indexFileAt? hs ht (hrows r hr).1]

section Drafted

variable {u : UnitRecord} {w : Writer}

theorem drafted_indexFileAt? (hs : s.Sound) (d : Writer.Drafted canon s u w) :
    w.store.indexFileAt? w.unit = some u.indexFile := by
  refine (indexFileAt?_eq_some d.sound.store).2 ⟨⟨w.unit, u.indexFile, u.stamp, u.checksum, false⟩, ?_, rfl, rfl⟩
  rw [d.units, d.unit]
  exact (enterUnit_spec hs u).2.2

/-- What the unit owned before, by key. -/
theorem mem_drafted_owned (hs : s.Sound) (d : Writer.Drafted canon s u w) {k : EntityKey} {e : EntityRow}
    (he : w.store.row? k = some e) :
    e.id ∈ w.owned ↔ ∃ v, s.view? k = some v ∧ v.owner = some u.indexFile := by
  have hn : w.store.Names e.id k := (names_iff_row? d.sound.store).2 ⟨e, he, rfl⟩
  rw [d.owned, mem_ownedBy]
  have howner : ∀ e' ∈ s.entities, e'.owner = some w.unit ↔ (s.view e').owner = some u.indexFile := by
    intro e' he'
    show _ ↔ e'.owner.bind s.indexFileAt? = _
    rcases ho : e'.owner with _ | id
    · simp
    · rw [Option.some.injEq, Option.bind_some, d.unit]
      exact eq_enterUnit_iff hs u ((hs.entities e' he').owner id ho).1
  constructor
  · rintro ⟨e', he', ho, hid⟩
    have hn' : w.store.Names e'.id (s.keyOf e') := d.grows.names hs d.sound.store ⟨e', he', rfl, rfl⟩
    have hk := (hn'.id_eq_iff d.sound.store hn).1 hid
    refine ⟨s.view e', ?_, (howner e' he').1 ho⟩
    rw [view?, (row?_eq_some hs).2 ⟨he', hk⟩, Option.map_some]
  · rintro ⟨v, hv, ho⟩
    obtain ⟨e', hr, rfl⟩ := Option.map_eq_some_iff.1 hv
    obtain ⟨he', hk⟩ := (row?_eq_some hs).1 hr
    have hn' : w.store.Names e'.id k := d.grows.names hs d.sound.store ⟨e', he', rfl, hk⟩
    exact ⟨e', he', (howner e' he').2 ho, (hn'.id_eq_iff d.sound.store hn).2 rfl⟩

/-- What the unit keeps of what it owned, by key. -/
theorem mem_drafted_kept (d : Writer.Drafted canon s u w) {k : EntityKey} {e : EntityRow}
    (he : w.store.row? k = some e) (ho : e.id ∈ w.owned) :
    e.id ∈ w.kept ↔ u.Touches canon k ∧ u.Lists canon k := by
  have hn : w.store.Names e.id k := (names_iff_row? d.sound.store).2 ⟨e, he, rfl⟩
  constructor
  · intro hk
    obtain ⟨key, hm, hin⟩ := d.sound.kept _ hk
    have hkey : key.stored canon = k := ((d.sound.keys key _ hm).id_eq_iff d.sound.store hn).1 rfl
    rw [hkey] at hin
    exact ⟨List.mem_map.2 ⟨key, d.fresh _ hm, hkey⟩, hin⟩
  · rintro ⟨ht, hin⟩
    obtain ⟨⟨key, id⟩, hm, hkey⟩ := d.listed k ht
    obtain rfl := ((d.sound.keys key id hm).id_eq_iff d.sound.store hn).2 hkey
    refine d.sound.keeps key _ hm ?_ ho
    rw [hkey]
    exact hin

/-- What the end of a write deletes, by key. -/
theorem drafted_gone (hs : s.Sound) (d : Writer.Drafted canon s u w) {k : EntityKey}
    {e : EntityRow} (he : w.store.row? k = some e) :
    (w.owned.contains e.id && !w.kept.contains e.id) = true ↔ s.Drops canon u k := by
  rw [Bool.and_eq_true, Bool.not_eq_true', ← Bool.not_eq_true, List.contains_iff_mem, List.contains_iff_mem]
  unfold Drops
  rw [← mem_drafted_owned hs d he]
  exact and_congr_right fun ho => not_congr (mem_drafted_kept d he ho)

theorem drafted_view?_touched (hs : s.Sound) (d : Writer.Drafted canon s u w) {k : EntityKey} (hk : u.Touches canon k) :
    w.store.view? k = some (u.putView canon k ((s.view? k).getD .stub)) := by
  obtain ⟨decl, id, hrow⟩ := d.row k hk
  rw [view?, hrow, Option.map_some, view_putAll (drafted_indexFileAt? hs d)]
  congr 2
  unfold view?
  rcases hr : s.row? k with _ | e
  · exact view_stub w.store k.name decl id
  · exact d.grows.view hs d.sound.store (hs.entities e ((row?_eq_some hs).1 hr).1)

theorem drafted_view?_other (hs : s.Sound) (d : Writer.Drafted canon s u w) {k : EntityKey} (hk : ¬ u.Touches canon k) :
    w.store.view? k = s.view? k := by
  rw [view?, d.other k hk, view?]
  rcases hr : s.row? k with _ | e
  · rfl
  · exact congrArg some (d.grows.view hs d.sound.store (hs.entities e ((row?_eq_some hs).1 hr).1))

/-- The rows of the unit are the new ones. -/
theorem drafted_holds (hs : s.Sound) (d : Writer.Drafted canon s u w) : w.store.Holds canon u := by
  have hfile := drafted_indexFileAt? hs d
  obtain ⟨rs, hrs, hunit, hread⟩ := d.references
  obtain ⟨ls, hls, hlunit, hlread⟩ := d.relations
  obtain ⟨ds, hds, hdunit, hdread⟩ := d.dependencies
  refine ⟨?_, ?_, ?_⟩
  · rw [hrs, ofUnit_replace d.sound.store hfile hunit, hread]
  · rw [hls, ofUnit_replace d.sound.store hfile hlunit, hlread]
  · rw [hds, ofUnit_replace d.sound.store hfile hdunit]
    exact hdread

/-- The rows of other units are those of before. -/
theorem drafted_holds_other (hs : s.Sound) (d : Writer.Drafted canon s u w) {u' : UnitRecord} (h : s.Holds canon u')
    (hne : u'.indexFile ≠ u.indexFile) : w.store.Holds canon u' := by
  have hfile := drafted_indexFileAt? hs d
  have ht := d.sound.store
  obtain ⟨rs, hrs, hunit, -⟩ := d.references
  obtain ⟨ls, hls, hlunit, -⟩ := d.relations
  obtain ⟨ds, hds, hdunit, -⟩ := d.dependencies
  refine ⟨?_, ?_, ?_⟩
  · rw [hrs, ← h.references]
    exact ofUnit_replace_other hs ht d.grows hfile hunit hne fun r hr =>
      ⟨(hs.references r hr).unit, d.grows.referenceRecord? hs ht (hs.references r hr)⟩
  · rw [hls, ← h.relations]
    exact ofUnit_replace_other hs ht d.grows hfile hlunit hne fun r hr =>
      ⟨(hs.relations r hr).unit, d.grows.relationRecord? hs ht (hs.relations r hr)⟩
  · rw [hds]
    refine List.Perm.trans (List.Perm.of_eq ?_) h.dependencies
    exact ofUnit_replace_other hs ht d.grows hfile hdunit hne fun r hr =>
      ⟨(hs.dependencies r hr).unit, d.grows.dependencyPaths? hs ht (hs.dependencies r hr)⟩

end Drafted

/-- Writing a unit without defects, whose keys are stored as the cache finds them. -/
theorem replaceUnit_of_spelled (hs : s.Sound) {u : UnitRecord} (hu : u.check = .ok ()) (hc : u.Spelled canon) :
    s.Replaced canon u (s.replaceUnit canon u) := by
  let w := s.drafted canon u
  have d : Writer.Drafted canon s u w := (Writer.drafted_of_spelled hs hu).2.2 hc
  have hw := d.sound.store
  let gone : Int → Bool := fun id => w.owned.contains id && !w.kept.contains id
  have hview : ∀ k, (s.replaceUnit canon u).view? k =
      ((w.store.row? k).filter fun e => !gone e.id).map w.store.view := by
    intro k
    show ((w.store.deleteEntities gone).row? k).map w.store.view = _
    rw [row?_deleteEntities hw]
  have hstays : ∀ k, ¬ s.Drops canon u k → (s.replaceUnit canon u).view? k = w.store.view? k := by
    intro k hk
    rw [hview, view?]
    rcases hr : w.store.row? k with _ | e
    · rfl
    · have hgone : gone e.id = false := by
        rw [← Bool.not_eq_true]
        exact mt (drafted_gone hs d hr).1 hk
      rw [Option.filter_some, hgone]
      rfl
  -- an id says whether its entity goes, a key whether it is dropped: `drafted_gone` ties the two
  have hspare : ∀ u' : UnitRecord, (∀ k, u'.Mentions canon k → ¬ s.Drops canon u k) → w.store.Spares canon gone u' := by
    intro u' h k hk id hn
    obtain ⟨e, hr, rfl⟩ := (names_iff_row? hw).1 hn
    rw [← Bool.not_eq_true]
    exact mt (drafted_gone hs d hr).1 (h k hk)
  refine ⟨replaceUnit_sound hs hu, ⟨(s.enterUnit u).1, fun row => ?_⟩, fun k hk => ?_, fun k hk ht => ?_,
    fun k hk ht => ?_, fun h => ?_, fun u' hne hh h => ?_⟩
  · show row ∈ w.store.units ↔ _
    rw [d.units]
    exact mem_enterUnit hs u
  · rw [hview]
    rcases hr : w.store.row? k with _ | e
    · rfl
    · have hgone : gone e.id = true := (drafted_gone hs d hr).2 hk
      rw [Option.filter_some, hgone]
      rfl
  · rw [hstays k hk, drafted_view?_touched hs d ht]
  · rw [hstays k hk, drafted_view?_other hs d ht]
  · exact (drafted_holds hs d).deleteEntities hw (hspare u h)
  · exact (drafted_holds_other hs d hh hne).deleteEntities hw (hspare u' h)

/-- Writing a unit without defects. -/
theorem replaceUnit_spec (hs : s.Sound) {u : UnitRecord} (hu : u.check = .ok ())
    (hc : EntityKey.Alike canon (u.recorded ++ u.mentioned)) :
    s.Replaced canon u (s.replaceUnit canon u) :=
  replaceUnit_of_spelled hs hu (.of_alike hc)

end Store

end CrossIndex
