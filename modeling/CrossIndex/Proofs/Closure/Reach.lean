/-
What a drained closure has reached. The expanded entities are those to which steps lead from the seed,
and an emitted element points at an entity exactly if the answers of an expanded one do. Main statement:
two questions whose answers point the opposite way round reach each other's seeds alike, since a path
read backwards is a path.
-/
import CrossIndex.Proofs.Closure.Exact
import Mathlib.Logic.Relation

namespace CrossIndex

variable {α : Type} [ClosureElement α]

theorem Entity.isNone_eq_false {e : Entity} : e.isNone = false ↔ 0 ≤ e.id := by
  simp [Entity.isNone]

namespace Walker

/-- An answer about the first entity points at the second one. -/
def Points (w : Walker α) (i j : Int) : Prop :=
  ∃ a ∈ w.answers i, (ClosureElement.target a).id = j

/-- The expansion of the first entity makes the second one due, unless it is expanded already. -/
def Leads (w : Walker α) (i j : Int) : Prop :=
  0 ≤ j ∧ (w.Points i j ∨ ∃ e ∈ w.around i, e.id = j)

/-- Steps lead to an entity from the seed. -/
def Reaches (w : Walker α) (seed : Entity) (id : Int) : Prop :=
  0 ≤ seed.id ∧ Relation.ReflTransGen w.Leads seed.id id

/-- All that steps lead to lies among the ids of the walker. -/
def Bounded (w : Walker α) (seed : Entity) : Prop :=
  ∀ id, w.Reaches seed id → id ∈ w.ids

theorem reaches_closed (w : Walker α) (seed : Entity) : w.Closed seed (w.Reaches seed) where
  seed h := ⟨Entity.isNone_eq_false.1 h, .refl⟩
  targets _ hid a ha h := ⟨hid.1, hid.2.tail ⟨Entity.isNone_eq_false.1 h, .inl ⟨a, ha, rfl⟩⟩⟩
  around _ hid e he h := ⟨hid.1, hid.2.tail ⟨Entity.isNone_eq_false.1 h, .inr ⟨e, he, rfl⟩⟩⟩

/-- A closed set has all that steps lead to. -/
theorem Closed.reaches {w : Walker α} {seed : Entity} {S : Int → Prop} (hS : w.Closed seed S) {id : Int}
    (h : w.Reaches seed id) : S id := by
  obtain ⟨hseed, hpath⟩ := h
  induction hpath with
  | refl => exact hS.seed (Entity.isNone_eq_false.2 hseed)
  | tail _ hstep ih =>
    obtain ⟨hj, ⟨a, ha, rfl⟩ | ⟨e, he, rfl⟩⟩ := hstep
    · exact hS.targets _ ih a ha (Entity.isNone_eq_false.2 hj)
    · exact hS.around _ ih e he (Entity.isNone_eq_false.2 hj)

/-- Without neighbours all that is reached is the seed or pointed at. -/
theorem bounded_of_points {w : Walker α} {seed : Entity} (hseed : seed.id ∈ w.ids) (haround : ∀ i, w.around i = [])
    (hpoints : ∀ i j, w.Points i j → j ∈ w.ids) : w.Bounded seed := by
  rintro id ⟨-, hpath⟩
  cases hpath with
  | refl => exact hseed
  | tail _ hstep =>
    obtain ⟨-, hp | ⟨e, he, -⟩⟩ := hstep
    · exact hpoints _ _ hp
    · rw [haround] at he
      cases he

/-- An answer about the first entity points at the second one, and neither is the null one. -/
def Joins (w : Walker α) (i j : Int) : Prop :=
  0 ≤ i ∧ 0 ≤ j ∧ w.Points i j

theorem reflTransGen_joins {w : Walker α} (haround : ∀ i, w.around i = []) {i j : Int} (hi : 0 ≤ i) :
    Relation.ReflTransGen w.Joins i j ↔ Relation.ReflTransGen w.Leads i j := by
  constructor
  · have hstep : ∀ i j, w.Joins i j → w.Leads i j := fun i j h => ⟨h.2.1, .inl h.2.2⟩
    exact Relation.ReflTransGen.mono hstep i j
  · intro h
    -- every entity on the way has been led to, so none of them is the null one
    have hboth : Relation.ReflTransGen w.Joins i j ∧ 0 ≤ j := by
      induction h with
      | refl => exact ⟨.refl, hi⟩
      | tail _ hstep ih =>
        obtain ⟨hj, hp | ⟨e, he, -⟩⟩ := hstep
        · exact ⟨ih.1.tail ⟨ih.2, hj, hp⟩, hj⟩
        · rw [haround] at he
          cases he
    exact hboth.1

end Walker

namespace Closure

variable [LawfulElement α]

/-- What a drained closure leaves behind, in terms of steps from the seed. -/
structure Drained (w : Walker α) (seed : Entity) (out : List α) (c : Closure α) : Prop where
  finished : c.current = none
  visited : ∀ id, id ∈ c.visited ↔ w.Reaches seed id
  answered : ∀ a ∈ out, ∃ id, w.Reaches seed id ∧ a ∈ w.answers id
  emitted : ∀ id, w.Reaches seed id → ∀ a ∈ w.answers id, ∃ b ∈ out, LawfulElement.same b a = true

/-- Collecting all elements drains the closure. -/
theorem collectAll_drained {w : Walker α} {seed : Entity} (h : w.Bounded seed) :
    Drained w seed (collectAll w (start w seed)).1 (collectAll w (start w seed)).2 := by
  have hS := w.reaches_closed seed
  obtain ⟨log, c, hd, -, hall⟩ := exists_collected hS h
  obtain ⟨taken, hp, hdirect, hdue, hnone⟩ := hd.progress (initial_progress w seed)
  rw [List.nil_append] at hp
  have hemitted : c.emitted.reverse = firsts (log.flatMap w.answers) := by
    rw [← hp.answers, hdirect, List.append_nil, hp.emitted]
  have hlog : ∀ id, id ∈ log ↔ w.Reaches seed id := by
    intro id
    refine ⟨fun hid => hp.subset hS id hid, fun hid => ?_⟩
    rw [← hp.visited]
    exact (hp.closed hdirect hdue).reaches hid
  rw [hall, hemitted]
  refine ⟨hnone, fun id => (hp.visited id).trans (hlog id), fun a ha => ?_, fun id hid a ha => ?_⟩
  · obtain ⟨id, hid, ha⟩ := List.mem_flatMap.1 (mem_of_mem_firsts ha)
    exact ⟨id, (hlog id).1 hid, ha⟩
  · exact exists_mem_firsts (List.mem_flatMap.2 ⟨id, (hlog id).2 hid, ha⟩)

/-- The entities at which the emitted elements point. -/
theorem Drained.target_iff {w : Walker α} {seed : Entity} {out : List α} {c : Closure α} (h : Drained w seed out c)
    {j : Int} : (∃ a ∈ out, (ClosureElement.target a).id = j) ↔ ∃ i, w.Reaches seed i ∧ w.Points i j := by
  constructor
  · rintro ⟨a, ha, rfl⟩
    obtain ⟨i, hi, hanswer⟩ := h.answered a ha
    exact ⟨i, hi, a, hanswer, rfl⟩
  · rintro ⟨i, hi, a, ha, rfl⟩
    obtain ⟨b, hb, hsame⟩ := h.emitted i hi a ha
    exact ⟨b, hb, LawfulElement.target b a hsame⟩

/-- An entity is emitted exactly if a path of at least one step leads to it. -/
theorem Drained.target_iff_transGen {w : Walker α} {seed : Entity} {out : List α} {c : Closure α}
    (h : Drained w seed out c) (haround : ∀ i, w.around i = []) (hseed : 0 ≤ seed.id) {j : Int} (hj : 0 ≤ j) :
    (∃ a ∈ out, (ClosureElement.target a).id = j) ↔ Relation.TransGen w.Joins seed.id j := by
  rw [h.target_iff, Relation.TransGen.tail'_iff]
  constructor
  · rintro ⟨i, hi, hp⟩
    -- the last step starts at an entity that has been expanded, and so not at the null one
    have hnonneg : 0 ≤ i := by
      rcases Relation.ReflTransGen.cases_tail hi.2 with rfl | ⟨_, -, hstep⟩
      · exact hseed
      · exact hstep.1
    exact ⟨i, (Walker.reflTransGen_joins haround hseed).2 hi.2, hnonneg, hj, hp⟩
  · rintro ⟨i, hi, hstep⟩
    exact ⟨i, ⟨hseed, (Walker.reflTransGen_joins haround hseed).1 hi⟩, hstep.2.2⟩

/-- Closures of two questions whose answers point the opposite way round: from each seed the other one
is reached, or from neither. -/
theorem Drained.converse {β : Type} [ClosureElement β] [LawfulElement β] {v : Walker α} {w : Walker β}
    {x y : Entity} {out : List α} {out' : List β} {c : Closure α} {c' : Closure β} (hv : Drained v x out c)
    (hw : Drained w y out' c') (hvaround : ∀ i, v.around i = []) (hwaround : ∀ i, w.around i = [])
    (hconverse : ∀ i j, v.Points i j ↔ w.Points j i) (hx : 0 ≤ x.id) (hy : 0 ≤ y.id) :
    (∃ a ∈ out, (ClosureElement.target a).id = y.id) ↔ ∃ a ∈ out', (ClosureElement.target a).id = x.id := by
  have hjoins : v.Joins = Function.swap w.Joins := by
    funext i j
    exact propext ⟨fun h => ⟨h.2.1, h.1, (hconverse i j).1 h.2.2⟩, fun h => ⟨h.2.1, h.1, (hconverse i j).2 h.2.2⟩⟩
  rw [hv.target_iff_transGen hvaround hx hy, hw.target_iff_transGen hwaround hy hx, hjoins, Relation.transGen_swap]

end Closure

end CrossIndex
