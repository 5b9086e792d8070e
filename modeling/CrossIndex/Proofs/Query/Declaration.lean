/-
The kind that marks declarations. When references are listed, the declaration of an entity is given that kind, but
a record may bring along references of the kind as well. Main statement: the kind tells the declaration of an entity
apart exactly if no reference of that kind to it has been recorded; for such entities a name that resolves without a
line, and not as an approximation, resolves to the declaration of one of them in a matching file.
-/
import CrossIndex.Proofs.Query.Resolution

namespace CrossIndex

/-- References of the kind that marks declarations are not let in. -/
def Intake.unmarked : Intake :=
  ⟨fun _ _ => True, fun _ _ kind => kind ≠ ReferenceKind.declarationId⟩

namespace Store

/-- Among the references to an entity, exactly its declaration is of the kind that marks declarations. -/
def MarksDeclaration (s : Store) (e : EntityRow) : Prop :=
  (s.referencesTo e.id).filter (fun r => r.kindId == ReferenceKind.declarationId) =
    if e.decl.isSome then [(s.declaration e.id).location] else []

/-- A reference is the declaration, in one of some files, of an entity of a name. -/
def DeclaredIn (s : Store) (name : String) (files : List SourceFile) (r : Reference) : Prop :=
  ∃ e ∈ s.entities, e.name = name ∧ r = (s.declaration e.id).location ∧
    ∃ p, e.decl = some p ∧ ∃ f ∈ files, f.id = p.file

/-- A reference of that kind to an entity of a name, in one of some files, has been recorded. -/
def MarkedIn (s : Store) (name : String) (files : List SourceFile) (r : Reference) : Prop :=
  ∃ row ∈ s.references, row.kindId = ReferenceKind.declarationId ∧ r = s.reference row ∧
    (∃ e ∈ s.entities, e.id = row.entity ∧ e.name = name) ∧ ∃ f ∈ files, f.id = row.file

variable {s : Store} {e : EntityRow} {name : String} {files : List SourceFile} {r : Reference}

theorem declaration_location (hs : s.Distinct) (he : e ∈ s.entities) :
    (s.declaration e.id).location = s.declarationReference e := by
  simp [declaration, (entity?_eq_some hs).2 ⟨he, rfl⟩]

/-- The references to an entity that are of the kind: the recorded ones of the kind, and its declaration. -/
theorem filter_mentions (hs : s.Distinct) (he : e ∈ s.entities) :
    (s.mentions e.id).filter (fun r => r.kindId == ReferenceKind.declarationId) =
      (s.references.filter fun r => r.kindId == ReferenceKind.declarationId && r.entity == e.id).map s.reference ++
        if e.decl.isSome then [(s.declaration e.id).location] else [] := by
  have hself : (s.entities.filter fun x => x.id == e.id && x.decl.isSome) = if e.decl.isSome then [e] else [] := by
    have hboth : (s.entities.filter fun x => x.id == e.id && x.decl.isSome) =
        (s.entities.filter fun x => x.id == e.id).filter fun x => x.decl.isSome := by
      rw [List.filter_filter]
      exact List.filter_congr fun x _ => Bool.and_comm _ _
    rw [hboth, filter_key_eq_singleton hs.entityIds he, List.filter_singleton, Bool.cond_eq_ite]
  rw [mentions, List.filter_append, hself, declaration_location hs he, List.filter_map, List.filter_filter]
  refine congrArg₂ _ rfl ?_
  split <;> rfl

theorem marksDeclaration_iff (hs : s.Distinct) (he : e ∈ s.entities) : s.MarksDeclaration e ↔
    ∀ row ∈ s.references, row.entity = e.id → row.kindId ≠ ReferenceKind.declarationId := by
  have hperm := ((List.mergeSort_perm (s.mentions e.id) fun a b => (byPlaceAndKind a b).isLE).filter
    fun r => r.kindId == ReferenceKind.declarationId).trans (.of_eq (filter_mentions hs he))
  have hnil : (∀ row ∈ s.references, row.entity = e.id → row.kindId ≠ ReferenceKind.declarationId) ↔
      (s.references.filter fun r => r.kindId == ReferenceKind.declarationId && r.entity == e.id) = [] := by
    simp only [List.filter_eq_nil_iff, Bool.and_eq_true, beq_iff_eq, not_and]
    exact forall₂_congr fun row _ => ⟨fun h hkind hid => h hid hkind, fun h hid hkind => h hkind hid⟩
  rw [hnil]
  unfold MarksDeclaration referencesTo sorted
  constructor
  · intro h
    -- both sides list the declaration once, so nothing else is left on the other one
    have hlength := hperm.length_eq
    rw [h, List.length_append, List.length_map] at hlength
    exact List.length_eq_zero_iff.1 (by omega)
  · intro h
    rw [h, List.map_nil, List.nil_append] at hperm
    by_cases hd : e.decl.isSome = true
    · rw [if_pos hd] at hperm ⊢
      exact List.perm_singleton.1 hperm
    · rw [if_neg hd] at hperm ⊢
      exact List.perm_nil.1 hperm

/-- A candidate of the kind is a declaration or has been recorded with it. -/
theorem Candidate.declaredIn_or_markedIn (hs : s.Sound) (h : s.Candidate name files r)
    (hkind : r.kindId = ReferenceKind.declarationId) : s.DeclaredIn name files r ∨ s.MarkedIn name files r := by
  obtain ⟨⟨f, hf, hfile⟩, ⟨row, hrow, rfl, hnamed⟩ | ⟨e, he, hname, rfl⟩⟩ := h
  · exact .inr ⟨row, hrow, hkind, rfl, hnamed, f, hf, ((file?_eq_some hs.toDistinct).1 hfile).2⟩
  · rcases hd : e.decl with _ | p
    · simp [declarationReference, hd] at hfile
    · simp only [declarationReference, hd, Option.bind_some] at hfile
      exact .inl ⟨e, he, hname, (declaration_location hs.toDistinct he).symm, p, hd, f, hf,
        ((file?_eq_some hs.toDistinct).1 hfile).2⟩

/-- Without a line, a name resolves to nothing, to an approximation, or to a candidate of the kind. -/
theorem resolve_without_line (hs : s.Sound) (ha : s.Ascending) (canon : String → String) (file : String)
    (column : Option Int) (hnull : s.resolve canon name file none column ≠ Reference.null)
    (hfuzzy : (s.resolve canon name file none column).isFuzzy = false) :
    s.DeclaredIn name (s.filesMatching canon file) (s.resolve canon name file none column) ∨
      s.MarkedIn name (s.filesMatching canon file) (s.resolve canon name file none column) := by
  have hname : name ≠ "" := by
    rintro rfl
    exact hnull rfl
  generalize hfound : s.resolve canon name file none column = found at *
  have hchoice := choice_resolve hs ha canon hname file none column
  rw [hfound] at hchoice
  cases hchoice with
  | exact hl _ => cases hl
  | nearest hl _ _ => cases hl
  | declared _ hleast => exact hleast.holds.1.declaredIn_or_markedIn hs hleast.holds.2
  | first _ _ => cases hfuzzy
  | nothing _ => exact absurd rfl hnull

/-- In every reachable store the kind marks the declaration of an entity exactly if no reference of the kind to it has
been recorded, which is so of every entity where no such reference ever came in. What a name resolves to without a line
is a declaration in a matching file or was recorded with the kind; the former, if the kind marks the declarations of
all entities of that name. -/
theorem declarations_marked {Canonical : (String → String) → Prop} (hs : s.Reachable Canonical) :
    (∀ e ∈ s.entities, s.MarksDeclaration e ↔
      ∀ row ∈ s.references, row.entity = e.id → row.kindId ≠ ReferenceKind.declarationId) ∧
    (s.Fed .unmarked → ∀ e ∈ s.entities, s.MarksDeclaration e) ∧
    ∀ canon name file column, s.resolve canon name file none column ≠ Reference.null →
      (s.resolve canon name file none column).isFuzzy = false →
      (s.DeclaredIn name (s.filesMatching canon file) (s.resolve canon name file none column) ∨
        s.MarkedIn name (s.filesMatching canon file) (s.resolve canon name file none column)) ∧
      ((∀ e ∈ s.entities, e.name = name → s.MarksDeclaration e) →
        s.DeclaredIn name (s.filesMatching canon file) (s.resolve canon name file none column)) := by
  have hiff : ∀ e ∈ s.entities, s.MarksDeclaration e ↔
      ∀ row ∈ s.references, row.entity = e.id → row.kindId ≠ ReferenceKind.declarationId := fun e he =>
    marksDeclaration_iff hs.sound.toDistinct he
  refine ⟨hiff, fun hfed e he => (hiff e he).2 fun row hrow _ => hfed.confined.references row hrow, ?_⟩
  intro canon name file column hnull hfuzzy
  have hfound := resolve_without_line hs.sound hs.ascending canon file column hnull hfuzzy
  refine ⟨hfound, fun hmarks => hfound.resolve_right ?_⟩
  rintro ⟨row, hrow, hkind, -, ⟨e, he, hid, hname⟩, -⟩
  exact (hiff e he).1 (hmarks e he hname) row hrow hid.symm hkind

/-- A unit that declares an entity and refers to it from another file by a reference of some kind. -/
def markingUnit (kind : Char) : UnitRecord where
  indexFile := "a.ali"
  stamp := 1
  sourceFiles := ["a.ads"]
  entities := [⟨"P", "procedure", some ⟨"a.ads", 1, 1⟩, {}⟩]
  references := [⟨⟨"P", some ⟨"a.ads", 1, 1⟩⟩, ⟨"b.adb", 2, 5⟩, kind, none⟩]

/-- The store of a new database that has been brought up to date with that unit. -/
def markingStore (kind : Char) : Store :=
  (fresh.update Path.normalize {} (MemorySource.ofUnits [markingUnit kind]).toSource false none).store

theorem markingStore_reachable (kind : Char) : Reachable (fun _ => True) (markingStore kind) :=
  .update .fresh trivial fun _ h => by cases h

theorem markingStore_fed : (markingStore 's').Fed .unmarked := by
  refine Fed.fresh.update_ofUnits fun u hu => ?_
  obtain rfl := List.mem_singleton.1 hu
  refine ⟨fun _ _ _ _ => trivial, fun _ _ _ _ => trivial, fun r hr => ?_⟩
  obtain rfl := List.mem_singleton.1 hr
  exact show 's' ≠ ReferenceKind.declarationId by decide

/-- A static call leaves it to the kind to mark the declaration, and the name resolves to that in its file. A reference
of the kind of declarations does not, and the name resolves to the reference in a file without declaration. -/
theorem markingStore_marked :
    ((markingStore 's').Fed .unmarked ∧ (∀ e ∈ (markingStore 's').entities, (markingStore 's').MarksDeclaration e) ∧
      (markingStore 's').DeclaredIn "P" ((markingStore 's').filesMatching Path.normalize "a.ads")
        ((markingStore 's').resolve Path.normalize "P" "a.ads" none none)) ∧
    (¬ ∀ e ∈ (markingStore 'D').entities, (markingStore 'D').MarksDeclaration e) ∧
      ¬ (markingStore 'D').DeclaredIn "P" ((markingStore 'D').filesMatching Path.normalize "b.adb")
        ((markingStore 'D').resolve Path.normalize "P" "b.adb" none none) ∧
      (markingStore 'D').MarkedIn "P" ((markingStore 'D').filesMatching Path.normalize "b.adb")
        ((markingStore 'D').resolve Path.normalize "P" "b.adb" none none) := by
  obtain ⟨-, hunmarked, hcall⟩ := declarations_marked (markingStore_reachable 's')
  obtain ⟨hmarks, -, hmark⟩ := declarations_marked (markingStore_reachable 'D')
  have hfile : ∀ e ∈ (markingStore 'D').entities, ((markingStore 'D').declaration e.id).location.line ≠
      ((markingStore 'D').resolve Path.normalize "P" "b.adb" none none).line := by
    decide +kernel
  have hnot : ¬ (markingStore 'D').DeclaredIn "P" ((markingStore 'D').filesMatching Path.normalize "b.adb")
      ((markingStore 'D').resolve Path.normalize "P" "b.adb" none none) := by
    rintro ⟨e, he, -, hfound, -⟩
    exact hfile e he (congrArg Reference.line hfound).symm
  refine ⟨⟨markingStore_fed, hunmarked markingStore_fed, ?_⟩, fun hall => ?_, hnot, ?_⟩
  · exact (hcall Path.normalize "P" "a.ads" none (by decide +kernel) (by decide +kernel)).2
      fun e he _ => hunmarked markingStore_fed e he
  · have hrow : ∃ e ∈ (markingStore 'D').entities, ∃ row ∈ (markingStore 'D').references, row.entity = e.id ∧
        row.kindId = ReferenceKind.declarationId := by decide +kernel
    obtain ⟨e, he, row, hrow, hid, hkind⟩ := hrow
    exact (hmarks e he).1 (hall e he) row hrow hid hkind
  · exact (hmark Path.normalize "P" "b.adb" none (by decide +kernel) (by decide +kernel)).1.resolve_left hnot

end Store

end CrossIndex
