/-
The searches for references against each other. What a name may mean in some files, what a file mentions and
where the bodies of an entity are is looked up in the rows directly, each time with conditions of its own. Main
statement: in every reachable store these searches give what the list of references to an entity gives.
-/
import CrossIndex.Proofs.Query.Resolution
import CrossIndex.Proofs.Update.Mirror
import Mathlib.Data.List.Sort

namespace CrossIndex

/-- Whether a reference lies in one of some files. -/
def Reference.liesIn (files : List SourceFile) (r : Reference) : Bool :=
  r.file.any files.contains

/-- Elements are grouped by distinct keys; those whose key is none of them are left out. -/
theorem perm_filter_flatMap {α κ : Type} [BEq κ] [LawfulBEq κ] {keys : List κ} (hkeys : keys.Nodup) (key : α → κ)
    (l : List α) :
    (keys.flatMap fun k => l.filter fun a => key a == k).Perm (l.filter fun a => keys.contains (key a)) := by
  have hgroups : (keys.flatMap fun k => l.filter fun a => key a == k) =
      keys.flatMap fun k => (l.filter fun a => keys.contains (key a)).filter fun a => key a == k := by
    refine List.flatMap_congr fun k hk => ?_
    rw [List.filter_filter]
    refine List.filter_congr fun a _ => ?_
    by_cases ha : key a = k
    · simp [ha, hk]
    · simp [ha]
  rw [hgroups]
  refine (perm_flatMap_filter hkeys fun a ha => ?_).symm
  exact List.contains_iff_mem.1 (List.mem_filter.1 ha).2

namespace Store

/-- All entities, by id. -/
def allEntities (s : Store) : List Entity :=
  (IdSet.ofList (s.entities.map EntityRow.id)).map Entity.ofId

/-- The entities with a name, or all entities where none is given. -/
def entitiesFor (s : Store) : Option String → List Entity
  | some name => s.entitiesNamed name
  | none => s.allEntities

/-- The searches for references agree with the list of references to an entity. The candidates for a name in some files
are the references that lie there, of all entities with the name. A file mentions the entities that have a reference in
it. The bodies of an entity are the references of two kinds. -/
structure Agreeing (s : Store) : Prop where
  candidates : ∀ name files, (∀ f ∈ files, f ∈ s.files) → (s.candidates name files).Perm
    ((s.entitiesNamed name).flatMap fun e => (s.referencesTo e.id).filter (Reference.liesIn files))
  mentioned : ∀ f ∈ s.files, ∀ name, s.referencedIn f.id name =
    (s.entitiesFor name).filter fun e => (s.referencesTo e.id).any (Reference.liesIn [f])
  ascending : ∀ id name, ((s.referencedIn id name).map Entity.id).Pairwise (· < ·)
  bodies : ∀ id, (s.bodies id).Perm ((s.referencesTo id).filter fun r => r.kindId = 'b' ∨ r.kindId = 'c')

variable {s : Store} {files : List SourceFile} {ids : List Int} {id : Int}

theorem perm_referencesTo (s : Store) (id : Int) : (s.referencesTo id).Perm (s.mentions id) :=
  List.mergeSort_perm _ _

theorem entitiesFor_eq (s : Store) (name : Option String) : s.entitiesFor name =
    (IdSet.ofList ((s.entities.filter (hasName name)).map EntityRow.id)).map Entity.ofId := by
  cases name with
  | some name => rfl
  | none => rw [entitiesFor, allEntities, show hasName none = fun _ => true from rfl, List.filter_true]

theorem map_id_ofId (ids : List Int) : (ids.map Entity.ofId).map Entity.id = ids := by
  rw [List.map_map]
  exact List.map_id ids

/-! ## Where references lie -/

theorem liesIn_reference (hs : s.Distinct) (hfiles : ∀ f ∈ files, f ∈ s.files) (row : ReferenceRow) :
    (s.reference row).liesIn files = files.any fun f => f.id == row.file := by
  rw [Bool.eq_iff_iff, any_id_iff hs hfiles, Reference.liesIn, Option.any_eq_true]
  simp only [reference, List.contains_iff_mem, and_comm]

theorem liesIn_declarationReference (hs : s.Distinct) (hfiles : ∀ f ∈ files, f ∈ s.files) (e : EntityRow) :
    (s.declarationReference e).liesIn files = e.decl.any fun p => files.any fun f => f.id == p.file := by
  rcases hd : e.decl with _ | p
  · simp [Reference.liesIn, declarationReference, hd]
  · rw [Bool.eq_iff_iff, Option.any_some, any_id_iff hs hfiles, Reference.liesIn, Option.any_eq_true]
    simp only [declarationReference, hd, Option.bind_some, List.contains_iff_mem, and_comm]

/-! ## The searches -/

/-- The references to several entities are the rows of these entities. -/
theorem perm_flatMap_mentions (hids : ids.Nodup) : (ids.flatMap s.mentions).Perm
    ((s.references.filter fun r => ids.contains r.entity).map s.reference ++
      (s.entities.filter fun e => ids.contains e.id && e.decl.isSome).map s.declarationReference) := by
  have hrefs := (perm_filter_flatMap hids ReferenceRow.entity s.references).map s.reference
  have hdecls := (perm_filter_flatMap hids EntityRow.id
    (s.entities.filter fun e => e.decl.isSome)).map s.declarationReference
  simp only [List.map_flatMap, List.filter_filter] at hrefs hdecls
  exact (List.flatMap_append_perm ids _ _).symm.trans (hrefs.append hdecls)

/-- The ids of the rows with a property are those of the rows that are found with it. -/
theorem contains_ofList (hs : s.Distinct) (p : EntityRow → Bool) (id : Int) :
    (IdSet.ofList ((s.entities.filter p).map EntityRow.id)).contains id = (s.entity? id).any p := by
  rw [Bool.eq_iff_iff, any_entity?_iff hs, List.contains_iff_mem, IdSet.mem_ofList]
  simp only [List.mem_map, List.mem_filter, and_assoc, and_comm (a := p _)]

theorem perm_candidates (hs : s.Sound) (hfiles : ∀ f ∈ files, f ∈ s.files) (name : String) :
    (s.candidates name files).Perm
      ((s.entitiesNamed name).flatMap fun e => (s.referencesTo e.id).filter (Reference.liesIn files)) := by
  have hcontains := contains_ofList hs.toDistinct fun e => e.name == name
  have hids := IdSet.pairwise_ofList ((s.entities.filter fun e => e.name == name).map EntityRow.id)
  rw [entitiesNamed, List.flatMap_map]
  generalize IdSet.ofList ((s.entities.filter fun e => e.name == name).map EntityRow.id) = ids at hcontains hids
  -- the candidates go through the tables one after the other, the references through the entities
  calc
    (s.candidates name files).Perm
        (((s.references.filter fun r => ids.contains r.entity).map s.reference ++
          (s.entities.filter fun e => ids.contains e.id && e.decl.isSome).map s.declarationReference).filter
            (Reference.liesIn files)) := by
      refine (List.mergeSort_perm _ _).trans (.of_eq ?_)
      rw [List.filter_append, List.filter_map, List.filter_map, List.filter_filter, List.filter_filter]
      refine congrArg₂ _ (congrArg _ (List.filter_congr fun r _ => ?_)) (congrArg _ (List.filter_congr fun e he => ?_))
      · rw [Function.comp_apply, liesIn_reference hs.toDistinct hfiles, hcontains]
      · rw [Function.comp_apply, liesIn_declarationReference hs.toDistinct hfiles, hcontains,
          (entity?_eq_some hs.toDistinct).2 ⟨he, rfl⟩, Option.any_some]
        cases e.decl <;> simp [Bool.and_comm]
    List.Perm _ ((ids.flatMap s.mentions).filter (Reference.liesIn files)) :=
      (perm_flatMap_mentions (hids.imp ne_of_lt)).symm.filter _
    List.Perm _ (ids.flatMap fun id => (s.referencesTo id).filter (Reference.liesIn files)) := by
      rw [List.filter_flatMap]
      exact List.Perm.flatMap_left _ fun id _ => (perm_referencesTo s id).symm.filter _

/-- An entity has a reference in a file exactly if a reference row or its declaration lies there. -/
theorem any_liesIn_iff (hs : s.Distinct) {f : SourceFile} (hf : f ∈ s.files) :
    (s.referencesTo id).any (Reference.liesIn [f]) = true ↔
      (∃ r ∈ s.references, r.entity = id ∧ r.file = f.id) ∨
        ∃ e ∈ s.entities, e.id = id ∧ e.decl.any (fun p => p.file == f.id) = true := by
  have hfiles : ∀ g ∈ [f], g ∈ s.files := fun g hg => List.mem_singleton.1 hg ▸ hf
  have hone : ∀ file, ([f].any fun g => g.id == file) = (file == f.id) := fun file => by
    rw [List.any_cons, List.any_nil, Bool.or_false, Bool.beq_comm]
  have hdecl : ∀ e : EntityRow, (s.declarationReference e).liesIn [f] = e.decl.any fun p => p.file == f.id := by
    intro e
    simp only [liesIn_declarationReference hs hfiles, hone]
  rw [(perm_referencesTo s id).any_eq, mentions, List.any_append, Bool.or_eq_true, List.any_map, List.any_map]
  simp only [List.any_filter, List.any_eq_true, Function.comp_apply, liesIn_reference hs hfiles, hdecl, hone,
    Bool.and_eq_true, beq_iff_eq]
  refine or_congr Iff.rfl (exists_congr fun e => and_congr_right fun _ => ?_)
  cases e.decl <;> simp

theorem referencedIn_eq (hs : s.Sound) {f : SourceFile} (hf : f ∈ s.files) (name : Option String) :
    s.referencedIn f.id name =
      (s.entitiesFor name).filter fun e => (s.referencesTo e.id).any (Reference.liesIn [f]) := by
  rw [entitiesFor_eq, List.filter_map, referencedIn]
  refine congrArg _ (List.Pairwise.eq_of_mem_iff (IdSet.pairwise_ofList _)
    ((IdSet.pairwise_ofList _).filter _) fun id => ?_)
  simp only [List.mem_filter, Function.comp_apply, Entity.ofId, any_liesIn_iff hs.toDistinct hf, IdSet.mem_ofList,
    List.mem_append, List.mem_map, Bool.and_eq_true, beq_iff_eq, any_entity?_iff hs.toDistinct]
  constructor
  · rintro (⟨r, ⟨hr, hfile, e, he, hid, hname⟩, rfl⟩ | ⟨e, ⟨he, hdecl, hname⟩, rfl⟩)
    · exact ⟨⟨e, ⟨he, hname⟩, hid⟩, .inl ⟨r, hr, rfl, hfile⟩⟩
    · exact ⟨⟨e, ⟨he, hname⟩, rfl⟩, .inr ⟨e, he, rfl, hdecl⟩⟩
  · rintro ⟨⟨e, ⟨he, hname⟩, rfl⟩, ⟨r, hr, hid, hfile⟩ | ⟨e', he', hid, hdecl⟩⟩
    · exact .inl ⟨r, ⟨hr, hfile, e, he, hid.symm, hname⟩, hid⟩
    · rw [List.inj_on_of_nodup_map hs.entityIds he' he hid] at hdecl
      exact .inr ⟨e, ⟨he, hdecl, hname⟩, rfl⟩

/-- The bodies of an entity are rows; its declaration is of neither kind. -/
theorem perm_bodies (s : Store) (id : Int) :
    (s.bodies id).Perm ((s.referencesTo id).filter fun r => r.kindId = 'b' ∨ r.kindId = 'c') := by
  refine (List.mergeSort_perm _ _).trans (.trans (.of_eq ?_) ((perm_referencesTo s id).filter _).symm)
  have hdecl : ((s.entities.filter fun e => e.id == id && e.decl.isSome).map s.declarationReference).filter
      (fun r => r.kindId = 'b' ∨ r.kindId = 'c') = [] := by
    rw [List.filter_eq_nil_iff, List.forall_mem_map]
    intro e _
    simp [declarationReference, ReferenceKind.declarationId]
  rw [mentions, List.filter_append, hdecl, List.append_nil, List.filter_map, List.filter_filter]
  refine congrArg _ (List.filter_congr fun r _ => ?_)
  rw [Bool.eq_iff_iff, Bool.and_eq_true, Bool.and_eq_true, and_comm, ReferenceKind.isBody, Bool.or_eq_true, beq_iff_eq,
    beq_iff_eq, Function.comp_apply, decide_eq_true_iff]
  rfl

/-- In every reachable store the searches for references agree with the list of references to an entity. -/
theorem searches_agree {Canonical : (String → String) → Prop} (h : s.Reachable Canonical) : s.Agreeing where
  candidates name _ hfiles := perm_candidates h.sound hfiles name
  mentioned _ hf name := referencedIn_eq h.sound hf name
  ascending id name := by
    rw [referencedIn, map_id_ofId]
    exact IdSet.pairwise_ofList _
  bodies := perm_bodies s

/-- A unit with two entities of one name. A second file has the body of the first one, a call of the second one and a
reference to a predefined entity. -/
def overloadedUnit : UnitRecord where
  indexFile := "a.ali"
  stamp := 1
  sourceFiles := ["a.ads"]
  entities := [⟨"P", "procedure", some ⟨"a.ads", 1, 11⟩, {}⟩, ⟨"P", "procedure", some ⟨"a.ads", 2, 11⟩, {}⟩]
  references := [⟨⟨"P", some ⟨"a.ads", 1, 11⟩⟩, ⟨"a.adb", 3, 14⟩, 'b', none⟩,
    ⟨⟨"P", some ⟨"a.ads", 2, 11⟩⟩, ⟨"a.adb", 5, 7⟩, 's', none⟩,
    ⟨⟨"Integer", none⟩, ⟨"a.adb", 4, 11⟩, 'r', none⟩]

/-- The store of a new database that has been brought up to date with that unit. -/
def overloadedStore : Store :=
  (fresh.update Path.normalize {} (MemorySource.ofUnits [overloadedUnit]).toSource false none).store

/-- The call is a candidate for the name that both entities have, and the body is one of the first entity only. The file
mentions the predefined entity too. -/
theorem overloadedStore_agrees :
    (overloadedStore.files = [⟨1, "a.ads"⟩, ⟨2, "a.adb"⟩] ∧
      overloadedStore.references =
        [⟨1, 2, 3, 14, 'b', none, 1⟩, ⟨2, 2, 5, 7, 's', none, 1⟩, ⟨3, 2, 4, 11, 'r', none, 1⟩]) ∧
      overloadedStore.Agreeing ∧
      overloadedStore.reference ⟨2, 2, 5, 7, 's', none, 1⟩ ∈ overloadedStore.candidates "P" [⟨2, "a.adb"⟩] ∧
      (overloadedStore.reference ⟨1, 2, 3, 14, 'b', none, 1⟩ ∈ overloadedStore.bodies 1 ∧
        overloadedStore.bodies 2 = []) ∧
      overloadedStore.referencedIn 2 none = [Entity.ofId 1, Entity.ofId 2, Entity.ofId 3] := by
  have hreach : Reachable (fun _ => True) overloadedStore := .update .fresh trivial fun _ h => by cases h
  have hagree := searches_agree hreach
  have hfiles : ∀ f ∈ [⟨2, "a.adb"⟩], f ∈ overloadedStore.files := by decide +kernel
  have hcall : overloadedStore.reference ⟨2, 2, 5, 7, 's', none, 1⟩ ∈ overloadedStore.mentions 2 := by decide +kernel
  have hbody : overloadedStore.reference ⟨1, 2, 3, 14, 'b', none, 1⟩ ∈ overloadedStore.mentions 1 := by decide +kernel
  refine ⟨by decide +kernel, hagree, ?_, ⟨?_, ?_⟩, by decide +kernel⟩
  · refine (hagree.candidates "P" _ hfiles).mem_iff.2 (List.mem_flatMap.2 ⟨Entity.ofId 2, by decide +kernel, ?_⟩)
    exact List.mem_filter.2 ⟨(perm_referencesTo _ _).mem_iff.2 hcall, by decide +kernel⟩
  · exact (hagree.bodies 1).mem_iff.2 (List.mem_filter.2 ⟨(perm_referencesTo _ _).mem_iff.2 hbody, by decide +kernel⟩)
  · refine List.perm_nil.1 ((hagree.bodies 2).trans (((perm_referencesTo _ 2).filter _).trans (.of_eq ?_)))
    decide +kernel

end Store

end CrossIndex
