/-
Sets of ids as ascending lists without repetition.
-/
namespace CrossIndex.IdSet

/-- The set with one more id. -/
def insert (id : Int) : List Int → List Int
  | [] => [id]
  | first :: rest =>
    if id < first then id :: first :: rest
    else if id = first then first :: rest
    else first :: insert id rest

/-- The set of the ids in a list. -/
def ofList (ids : List Int) : List Int :=
  ids.foldr insert []

@[simp] theorem mem_insert {id x : Int} {set : List Int} :
    x ∈ insert id set ↔ x = id ∨ x ∈ set := by
  induction set with
  | nil => simp [insert]
  | cons first rest ih =>
    unfold insert
    split
    · simp
    · split
      · rename_i h; subst h; simp
      · simp only [List.mem_cons, ih]
        constructor
        · rintro (h | h | h) <;> simp [h]
        · rintro (h | h | h) <;> simp [h]

@[simp] theorem mem_ofList {x : Int} {ids : List Int} : x ∈ ofList ids ↔ x ∈ ids := by
  induction ids with
  | nil => simp [ofList]
  | cons id ids ih =>
    have step : ofList (id :: ids) = insert id (ofList ids) := rfl
    rw [step, mem_insert, ih, List.mem_cons]

/-- A set stays ascending under insertion. -/
theorem pairwise_insert {id : Int} {set : List Int} (h : set.Pairwise (· < ·)) :
    (insert id set).Pairwise (· < ·) := by
  induction set with
  | nil => simp [insert]
  | cons first rest ih =>
    rw [List.pairwise_cons] at h
    unfold insert
    split
    · rename_i lt
      refine List.pairwise_cons.2 ⟨?_, List.pairwise_cons.2 h⟩
      intro x hx
      rcases List.mem_cons.1 hx with rfl | hx
      · exact lt
      · exact Int.lt_trans lt (h.1 x hx)
    · split
      · exact List.pairwise_cons.2 h
      · rename_i nlt ne
        refine List.pairwise_cons.2 ⟨?_, ih h.2⟩
        intro x hx
        rcases mem_insert.1 hx with rfl | hx
        · omega
        · exact h.1 x hx

/-- The set of a list is ascending. -/
theorem pairwise_ofList (ids : List Int) : (ofList ids).Pairwise (· < ·) := by
  induction ids with
  | nil => exact List.Pairwise.nil
  | cons id ids ih => exact pairwise_insert ih

end CrossIndex.IdSet
