/-
Elements of closures as equal or different. The order of elements finds two elements equal exactly
if they are the same, and then they point at one entity. `firsts` keeps the first of each run of
same elements in a list; it can be built from the left, which is how a closure emits.
-/
import CrossIndex.Closure
import CrossIndex.Proofs.Path.Order

namespace CrossIndex

/-- Elements whose order tells apart exactly what is not the same. -/
class LawfulElement (α : Type) [ClosureElement α] where
  same : α → α → Bool
  compare_eq : ∀ a b : α, compare a b = .eq ↔ same a b = true
  refl : ∀ a, same a a = true
  symm : ∀ a b, same a b = same b a
  trans : ∀ a b c, same a b = true → same b c = true → same a c = true
  target : ∀ a b, same a b = true → (ClosureElement.target a).id = (ClosureElement.target b).id

/-! ## The three sorts of elements -/

theorem Entity.compare_eq (a b : Entity) : compare a b = .eq ↔ a.same b = true := by
  show compare a.id b.id = .eq ↔ (a.id == b.id) = true
  rw [Std.compare_eq_iff_eq, beq_iff_eq]

instance : LawfulElement Entity where
  same := Entity.same
  compare_eq := Entity.compare_eq
  refl a := by simp [Entity.same]
  symm a b := by simp [Entity.same, Bool.beq_comm]
  trans a b c h1 h2 := by
    simp only [Entity.same, beq_iff_eq] at *
    exact h1.trans h2
  target a b h := by
    simp only [Entity.same, beq_iff_eq] at h
    exact h

/-- References are the same when all that their order looks at is equal. -/
theorem Reference.same_iff (a b : Reference) : a.same b = true ↔
    a.pathKey = b.pathKey ∧ a.line = b.line ∧ a.column = b.column ∧ a.kindId = b.kindId ∧ a.entity.id = b.entity.id ∧
      a.scope.id = b.scope.id ∧ a.fileId = b.fileId ∧ a.kind = b.kind ∧ a.isEndOfScope = b.isEndOfScope := by
  have hsame : a.same b = (a.entity.same b.entity && (a.pathKey == b.pathKey && a.fileId == b.fileId) &&
      a.line == b.line && a.column == b.column && a.kind == b.kind && a.kindId == b.kindId && a.scope.same b.scope &&
      a.isEndOfScope == b.isEndOfScope) := by
    unfold same pathKey fileId
    cases a.file <;> cases b.file <;> simp [SourceFile.same, Path.same]
  rw [hsame]
  simp only [Bool.and_eq_true, beq_iff_eq, Entity.same]
  grind

theorem Reference.compare_eq (a b : Reference) : compare a b = .eq ↔ a.same b = true := by
  show compareLex (compareOn Reference.pathKey) _ a b = .eq ↔ _
  simp only [Reference.same_iff, compareLex_eq_eq, compareOn, Std.compare_eq_iff_eq]

instance : LawfulElement Reference where
  same := Reference.same
  compare_eq := Reference.compare_eq
  refl a := by simp [Reference.same_iff]
  symm a b := by
    rw [Bool.eq_iff_iff, Reference.same_iff, Reference.same_iff]
    grind
  trans a b c h1 h2 := by
    rw [Reference.same_iff] at *
    grind
  target a b h := ((Reference.same_iff a b).1 h).2.2.2.2.1

/-- Parameters are the same when their entities and their modes are. -/
def Parameter.same (a b : Parameter) : Bool :=
  a.entity.same b.entity && a.kind == b.kind

instance : LawfulElement Parameter where
  same := Parameter.same
  compare_eq a b := by
    show compareLex (compareOn Parameter.entity) (compareOn Parameter.kind) a b = .eq ↔ _
    rw [compareLex_eq_eq, Parameter.same, Bool.and_eq_true, beq_iff_eq]
    refine and_congr (Entity.compare_eq _ _) ?_
    show compare a.kind.rank b.kind.rank = .eq ↔ _
    rw [Std.compare_eq_iff_eq]
    cases a.kind <;> cases b.kind <;> simp [ParameterKind.rank]
  refl a := by simp [Parameter.same, Entity.same]
  symm a b := by simp [Parameter.same, Entity.same, Bool.beq_comm]
  trans a b c h1 h2 := by
    simp only [Parameter.same, Entity.same, Bool.and_eq_true, beq_iff_eq] at *
    exact ⟨h1.1.trans h2.1, h1.2.trans h2.2⟩
  target a b h := by
    simp only [Parameter.same, Entity.same, Bool.and_eq_true, beq_iff_eq] at h
    exact h.1

/-! ## First occurrences -/

namespace Closure

variable {α : Type} [ClosureElement α] [LawfulElement α]

/-- The elements of a list that are not the same as an earlier one. -/
def firsts : List α → List α
  | [] => []
  | a :: as => a :: (firsts as).filter fun b => !LawfulElement.same a b

/-- Taking in one more element at the end. -/
theorem firsts_concat (as : List α) (a : α) :
    firsts (as ++ [a]) = if (firsts as).any (LawfulElement.same a) then firsts as else firsts as ++ [a] := by
  induction as with
  | nil => simp [firsts]
  | cons x as ih =>
    have hany : (firsts (x :: as)).any (LawfulElement.same a) =
        (LawfulElement.same x a || (firsts as).any (LawfulElement.same a)) := by
      rw [Bool.eq_iff_iff, firsts, List.any_cons, LawfulElement.symm a x]
      simp only [Bool.or_eq_true, List.any_eq_true, List.mem_filter, Bool.not_eq_true']
      constructor
      · rintro (h | ⟨b, ⟨hb, -⟩, h⟩)
        · exact .inl h
        · exact .inr ⟨b, hb, h⟩
      · rintro (h | ⟨b, hb, h⟩)
        · exact .inl h
        · rcases hx : LawfulElement.same x b
          · exact .inr ⟨b, ⟨hb, hx⟩, h⟩
          · exact .inl (LawfulElement.trans x b a hx (by rw [LawfulElement.symm]; exact h))
    rw [List.cons_append, hany, firsts, firsts, ih]
    rcases hx : LawfulElement.same x a <;> rcases hf : (firsts as).any (LawfulElement.same a) <;> simp [hx]

theorem mem_of_mem_firsts {as : List α} {a : α} (h : a ∈ firsts as) : a ∈ as := by
  induction as with
  | nil => cases h
  | cons x as ih =>
    rcases List.mem_cons.1 h with rfl | h
    · exact List.mem_cons_self
    · exact List.mem_cons_of_mem _ (ih (List.mem_filter.1 h).1)

theorem exists_mem_firsts {as : List α} {a : α} (h : a ∈ as) : ∃ b ∈ firsts as, LawfulElement.same b a = true := by
  induction as with
  | nil => cases h
  | cons x as ih =>
    rcases hx : LawfulElement.same x a
    · rcases List.mem_cons.1 h with rfl | h
      · exact ⟨a, List.mem_cons_self, LawfulElement.refl a⟩
      · obtain ⟨b, hb, hs⟩ := ih h
        refine ⟨b, List.mem_cons_of_mem _ (List.mem_filter.2 ⟨hb, ?_⟩), hs⟩
        rcases hxb : LawfulElement.same x b
        · rfl
        · exact absurd (LawfulElement.trans x b a hxb hs) (by simp [hx])
    · exact ⟨x, List.mem_cons_self, hx⟩

theorem firsts_pairwise (as : List α) : (firsts as).Pairwise fun a b => LawfulElement.same a b = false := by
  induction as with
  | nil => exact .nil
  | cons x as ih =>
    refine List.pairwise_cons.2 ⟨fun b hb => ?_, ih.filter _⟩
    simpa using (List.mem_filter.1 hb).2

/-- A list without repetition is its own first occurrences. -/
theorem firsts_eq_self {as : List α} (h : as.Pairwise fun a b => LawfulElement.same a b = false) : firsts as = as := by
  induction as with
  | nil => rfl
  | cons x as ih =>
    obtain ⟨hx, has⟩ := List.pairwise_cons.1 h
    rw [firsts, ih has, List.filter_eq_self.2 fun b hb => by rw [hx b hb]; rfl]

theorem length_firsts_le (as : List α) : (firsts as).length ≤ as.length := by
  induction as with
  | nil => exact Nat.le_refl _
  | cons x as ih =>
    have hfilter := List.length_filter_le (fun b => !LawfulElement.same x b) (firsts as)
    rw [firsts, List.length_cons, List.length_cons]
    omega

end Closure

end CrossIndex
