/-
What a reachable store answers about an id that names no entity: nothing. Every row of a reachable
store points at rows that are there, so after a deletion, whatever took part in it and whichever ids
came back since, no row is left that could answer under the deleted id.
-/
import CrossIndex.Proofs.Store.Reachable
import CrossIndex.Query.Entity
import CrossIndex.Source.Memory

namespace CrossIndex.Store

/-- Nothing is known of an id: every question about it has the answer of no entity. -/
structure Silent (s : Store) (id : Int) : Prop where
  declaration : s.declaration id = Declaration.none
  references : ∀ question ∈ [referencesTo, bodies, callSites], question s id = []
  entities : ∀ question ∈ [calls, callers, parentTypes, childTypes, overriddenBy, instantiations, methods, fields,
    discriminants, literals], question s id = []
  entity : ∀ question ∈ [overrides, renamingOf, instanceOf, parameterOf, pointedType, componentType],
    question s id = Entity.none
  related : ∀ kind, s.relatedFrom id kind = [] ∧ s.relatedTo id kind = []
  parameters : s.formalParameters id = []

/-- Where the declaration of an entity is reported: nowhere, or at a position in a known file. -/
def DeclaredWell (s : Store) (r : Reference) : Prop :=
  r.file = none ∧ r.line = -1 ∧ r.column = -1 ∨ ∃ f ∈ s.files, r.file = some f ∧ 1 ≤ r.line ∧ 1 ≤ r.column

variable {s : Store} {id : Int}

/-! ## Nothing is found under an id without entity -/

theorem filter_references_eq_nil (hs : s.Linked) (h : ¬ s.HasEntity id) {p : ReferenceRow → Bool}
    (hp : ∀ r, p r = true → r.entity = id ∨ r.scope = some id) : s.references.filter p = [] := by
  rw [List.filter_eq_nil_iff]
  intro r hr hpr
  have hlinked := hs.references r hr
  rcases hp r hpr with he | he
  · exact h (he ▸ hlinked.entity)
  · exact h (hlinked.scope id he)

theorem filter_relations_eq_nil (hs : s.Linked) (h : ¬ s.HasEntity id) {p : RelationRow → Bool}
    (hp : ∀ r, p r = true → r.source = id ∨ r.target = id) : s.relations.filter p = [] := by
  rw [List.filter_eq_nil_iff]
  intro r hr hpr
  have hlinked := hs.relations r hr
  rcases hp r hpr with he | he
  · exact h (he ▸ hlinked.source)
  · exact h (he ▸ hlinked.target)

theorem relationsFrom_eq_nil (hs : s.Linked) (h : ¬ s.HasEntity id) (kind : String) : s.relationsFrom id kind = [] :=
  filter_relations_eq_nil hs h fun r hr => .inl (by simp at hr; exact hr.1)

theorem relatedFrom_eq_nil (hs : s.Linked) (h : ¬ s.HasEntity id) (kind : String) : s.relatedFrom id kind = [] := by
  simp [relatedFrom, relationsFrom_eq_nil hs h, IdSet.ofList]

theorem relatedTo_eq_nil (hs : s.Linked) (h : ¬ s.HasEntity id) (kind : String) : s.relatedTo id kind = [] := by
  unfold relatedTo
  rw [filter_relations_eq_nil hs h fun r hr => .inr (by simp at hr; exact hr.1)]
  rfl

theorem callRows_eq_nil (hs : s.Linked) (h : ¬ s.HasEntity id) : s.callRows id = [] :=
  filter_references_eq_nil hs h fun r hr => .inr (by simp at hr; exact hr.1)

theorem mentions_eq_nil (hs : s.Linked) (h : ¬ s.HasEntity id) : s.mentions id = [] := by
  unfold mentions
  rw [filter_references_eq_nil hs h fun r hr => .inl (by simpa using hr)]
  have hnone : (s.entities.filter fun e => e.id == id && e.decl.isSome) = [] := by
    rw [List.filter_eq_nil_iff]
    intro e he hcond
    simp only [Bool.and_eq_true, beq_iff_eq] at hcond
    exact h ⟨e, he, hcond.1⟩
  rw [hnone]
  rfl

/-- An id without entity has no answers where every row is linked. -/
theorem Linked.silent (hs : s.Linked) (h : ¬ s.HasEntity id) : s.Silent id where
  declaration := by
    unfold declaration
    rw [entity?_eq_none.2 h]
  references := by
    have hbodies : (s.references.filter fun r => r.entity == id && ReferenceKind.isBody r.kindId) = [] :=
      filter_references_eq_nil hs h fun r hr => .inl (by simp at hr; exact hr.1)
    simp [referencesTo, bodies, callSites, mentions_eq_nil hs h, hbodies, callRows_eq_nil hs h, sorted]
  entities := by
    have hcallers : (s.references.filter fun r => r.entity == id && s.isCall r.kindId) = [] :=
      filter_references_eq_nil hs h fun r hr => .inl (by simp at hr; exact hr.1)
    simp [calls, callers, parentTypes, childTypes, overriddenBy, instantiations, methods, fields, discriminants,
      literals, callRows_eq_nil hs h, hcallers, relatedFrom_eq_nil hs h, relatedTo_eq_nil hs h, IdSet.ofList]
  entity := by
    simp [overrides, renamingOf, instanceOf, parameterOf, pointedType, componentType, relatedFrom_eq_nil hs h,
      relatedTo_eq_nil hs h, firstOf]
  related kind := ⟨relatedFrom_eq_nil hs h kind, relatedTo_eq_nil hs h kind⟩
  parameters := by simp [formalParameters, relationsFrom_eq_nil hs h]

theorem Sound.declaredWell (hs : s.Sound) {e : EntityRow} (he : e ∈ s.entities) :
    s.DeclaredWell (s.declarationReference e) := by
  rcases hd : e.decl with _ | p
  · left
    refine ⟨?_, ?_, ?_⟩ <;> simp [declarationReference, hd]
  · obtain ⟨⟨f, hf, hid⟩, hline, hcolumn⟩ := (hs.entities e he).decl p hd
    have hfile := (file?_eq_some hs.toDistinct).2 ⟨hf, hid⟩
    exact .inr ⟨f, hf, by simp [declarationReference, hd, hfile], by simpa [declarationReference, hd] using hline,
      by simpa [declarationReference, hd] using hcolumn⟩

/-- In every reachable store all rows point at rows that are there, every declaration is reported
nowhere or at a position in a known file, and an id that names no entity has no answers. -/
theorem reachable_wellFormed {Canonical : (String → String) → Prop} {s : Store} (h : Reachable Canonical s) :
    s.Linked ∧ (∀ e ∈ s.entities, s.DeclaredWell (s.declarationReference e)) ∧
      ∀ id, ¬ s.HasEntity id → s.Silent id :=
  ⟨h.sound.toLinked, fun _ he => h.sound.declaredWell he, fun _ hid => h.sound.toLinked.silent hid⟩

/-- A unit that declares an entity and refers to it under another spelling of its path. -/
def loneUnit : UnitRecord where
  indexFile := "a.ali"
  stamp := 1
  sourceFiles := ["a.ads"]
  entities := [⟨"Lone", "procedure", some ⟨"a.ads", 1, 1⟩, {}⟩]
  references := [⟨⟨"Lone", some ⟨"./a.ads", 1, 1⟩⟩, ⟨"a.ads", 2, 3⟩, 'r', none⟩]

/-- The store of a new database that has been brought up to date with that unit. -/
def loneStore : Store :=
  (fresh.update Path.normalize {} (MemorySource.ofUnits [loneUnit]).toSource false none).store

theorem loneStore_wellFormed :
    (loneStore.counts = ⟨1, 1, 1, 1, 0⟩ ∧ loneStore.Linked) ∧
      (∀ e ∈ loneStore.entities, loneStore.DeclaredWell (loneStore.declarationReference e)) ∧ loneStore.Silent 2 := by
  have hreach : Reachable (fun _ => True) loneStore := .update .fresh trivial fun _ h => by cases h
  obtain ⟨hlinked, hdeclared, hsilent⟩ := reachable_wellFormed hreach
  have hnone : ¬ loneStore.HasEntity 2 := by
    unfold HasEntity
    decide +kernel
  exact ⟨⟨by decide +kernel, hlinked⟩, hdeclared, hsilent 2 hnone⟩

end CrossIndex.Store
