/-
The two ways to move a cursor. A cursor that shows a list shows its next element whichever way it was
moved before, and at the end stays as it is; so after a number of moves only that number counts. Main
statement: a cursor over a list of answers shows that list, and a closure shows all that it emits.
-/
import CrossIndex.Cursor
import CrossIndex.Proofs.Closure.Reach

namespace CrossIndex

/-- A way to move a cursor. -/
inductive Move where
  | advance
  | next
  deriving DecidableEq, Repr

/-- What can be done with the states of a cursor. -/
structure Protocol (σ α : Type) where
  hasElement : σ → Bool
  element : σ → Option α
  advance : σ → σ
  next : σ → Option α × σ

variable {σ α : Type}

namespace Protocol

/-- The state after one move. -/
def move (p : Protocol σ α) (c : σ) : Move → σ
  | .advance => p.advance c
  | .next => (p.next c).2

/-- The state after some moves. -/
def after (p : Protocol σ α) (c : σ) (moves : List Move) : σ :=
  moves.foldl p.move c

/-- From a state on, a cursor shows the elements of a list and then comes to rest. -/
inductive Runs (p : Protocol σ α) : σ → List α → σ → Prop where
  | rest {c : σ} (hhas : p.hasElement c = false) (helement : p.element c = none) (hadvance : p.advance c = c)
      (hnext : p.next c = (none, c)) : Runs p c [] c
  | step {c : σ} {a : α} {as : List α} {last : σ} (hhas : p.hasElement c = true) (helement : p.element c = some a)
      (hnext : p.next c = (some a, p.advance c)) (hrest : Runs p (p.advance c) as last) : Runs p c (a :: as) last

variable {p : Protocol σ α} {c last : σ} {as : List α}

theorem Runs.hasElement_iff (h : p.Runs c as last) : p.hasElement c = true ↔ 0 < as.length := by
  cases h with
  | rest hhas => simp [hhas]
  | step hhas => simp [hhas]

theorem Runs.element_eq (h : p.Runs c as last) : p.element c = as.head? := by
  cases h with
  | rest _ helement => exact helement
  | step _ helement => exact helement

theorem Runs.next_eq (h : p.Runs c as last) : p.next c = (as.head?, p.advance c) := by
  cases h with
  | rest _ _ hadvance hnext => rw [hnext, hadvance]; rfl
  | step _ _ hnext => exact hnext

theorem Runs.advance (h : p.Runs c as last) : p.Runs (p.advance c) as.tail last := by
  cases h with
  | rest hhas helement hadvance hnext => rw [hadvance]; exact .rest hhas helement hadvance hnext
  | step _ _ _ hrest => exact hrest

theorem Runs.eq_last (h : p.Runs c [] last) : c = last ∧ p.advance last = last := by
  cases h with
  | rest _ _ hadvance => exact ⟨rfl, hadvance⟩

/-- Both ways to move lead to the same state. -/
theorem Runs.move_eq (h : p.Runs c as last) (m : Move) : p.move c m = p.advance c := by
  cases m with
  | advance => rfl
  | next => rw [move, h.next_eq]

/-- After some moves the rest of the list is left, and the state is the one after as many calls of `advance`. -/
theorem Runs.after (h : p.Runs c as last) (moves : List Move) :
    p.Runs (p.after c moves) (as.drop moves.length) last ∧ p.after c moves = p.advance^[moves.length] c := by
  induction moves generalizing c as with
  | nil => exact ⟨h, rfl⟩
  | cons m moves ih =>
    obtain ⟨hruns, hstate⟩ := ih h.advance
    rw [Protocol.after, List.foldl_cons, h.move_eq m]
    rw [List.drop_tail] at hruns
    exact ⟨hruns, hstate⟩

/-- Whatever mixture of moves was made, a cursor shows the elements of one list, and then nothing. -/
structure Shows (p : Protocol σ α) (c : σ) (as : List α) (last : σ) : Prop where
  hasElement : ∀ moves, p.hasElement (p.after c moves) = true ↔ moves.length < as.length
  element : ∀ moves, p.element (p.after c moves) = as[moves.length]?
  next : ∀ moves, (p.next (p.after c moves)).1 = as[moves.length]?
  /-- Past the end the state is always the same, and neither way to move changes it. -/
  past : ∀ moves, as.length ≤ moves.length →
    p.after c moves = last ∧ p.next last = (none, last) ∧ p.advance last = last
  /-- Before the end, too, it only counts how many moves were made. -/
  mixed : ∀ moves moves', moves.length = moves'.length → p.after c moves = p.after c moves'

theorem Runs.shows (h : p.Runs c as last) : p.Shows c as last where
  hasElement moves := by
    rw [(h.after moves).1.hasElement_iff, List.length_drop]
    omega
  element moves := by rw [(h.after moves).1.element_eq, List.head?_drop]
  next moves := by rw [(h.after moves).1.next_eq, List.head?_drop]
  past moves hmoves := by
    have hruns := (h.after moves).1
    rw [List.drop_eq_nil_of_le hmoves] at hruns
    obtain ⟨hlast, hadvance⟩ := hruns.eq_last
    have hnext := hruns.next_eq
    rw [hlast, hadvance] at hnext
    exact ⟨hlast, hnext, hadvance⟩
  mixed moves moves' hlength := by rw [(h.after moves).2, (h.after moves').2, hlength]

end Protocol

/-! ## Cursors over answers -/

/-- A cursor over a list of answers. -/
def Cursor.protocol (α : Type) : Protocol (Cursor α) α :=
  ⟨Cursor.hasElement, Cursor.element, Cursor.advance, Cursor.next⟩

theorem Cursor.runs_ofList : ∀ as : List α, (Cursor.protocol α).Runs (Cursor.ofList as) as (Cursor.ofList [])
  | [] => .rest rfl rfl rfl rfl
  | _ :: as => .step rfl rfl rfl (Cursor.runs_ofList as)

/-! ## Closures -/

namespace Closure

variable [ClosureElement α]

/-- A closure of a question. -/
def protocol (w : Walker α) : Protocol (Closure α) α :=
  ⟨hasElement, element, advance w, next w⟩

theorem runs_of_current_none {w : Walker α} {c : Closure α} (hc : c.current = none) : (protocol w).Runs c [] c := by
  have hadvance : c.advance w = c := by simp [advance, hc]
  refine .rest ?_ hc hadvance ?_
  · show c.current.isSome = false
    rw [hc]
    rfl
  · show c.next w = (none, c)
    rw [next_eq, hc, hadvance]

/-- From an element on, a closure shows it and all that the loop emits after it, and rests where the loop ends. -/
theorem runs_of_drains {w : Walker α} {c last : Closure α} {log : List Int} {a : α} (hd : Drains w c log last)
    (hfuel : log.length ≤ fuel w) (hc : c.current = some a) :
    ∃ as, last.emitted.reverse = c.emitted.reverse ++ as ∧ (protocol w).Runs c (a :: as) last := by
  have hadvance : c.advance w = settle w (fuel w) c := by simp [advance, hc]
  have hhas : c.hasElement = true := by rw [hasElement, hc]; rfl
  have hnext : c.next w = (some a, c.advance w) := by rw [next_eq, hc]
  rcases settle_of_drains hd (fuel w) hfuel with ⟨hend, hemitted, hnone⟩ | ⟨b, log', hb, hemitted, hd', hlog⟩
  · have hrest : (protocol w).Runs (c.advance w) [] last := by
      rw [hadvance, hend]
      exact runs_of_current_none hnone
    exact ⟨[], by rw [hemitted, List.append_nil], .step hhas hc hnext hrest⟩
  · have hshort : last.emitted.length - (settle w (fuel w) c).emitted.length <
        last.emitted.length - c.emitted.length := by
      have := hd'.length_emitted
      rw [hemitted, List.length_cons] at this ⊢
      omega
    obtain ⟨as, has, hrest⟩ := runs_of_drains hd' (hlog.trans hfuel) hb
    rw [← hadvance] at hrest
    refine ⟨b :: as, ?_, .step hhas hc hnext hrest⟩
    rw [has, hemitted, List.reverse_cons, List.append_assoc]
    rfl
-- every move emits one more element
termination_by last.emitted.length - c.emitted.length
decreasing_by exact hshort

/-- A closure shows all that the loop emits from its seed. -/
theorem start_runs {w : Walker α} {seed : Entity} {last : Closure α} {log : List Int}
    (hd : Drains w (initial seed) log last) (hfuel : log.length ≤ fuel w) :
    (protocol w).Runs (start w seed) last.emitted.reverse last := by
  unfold start
  rcases settle_of_drains hd (fuel w) hfuel with ⟨hend, hemitted, hnone⟩ | ⟨a, log', ha, hemitted, hd', hlog⟩
  · rw [hend, hemitted]
    exact runs_of_current_none hnone
  · obtain ⟨as, has, hruns⟩ := runs_of_drains hd' (hlog.trans hfuel) ha
    rw [has, hemitted]
    exact hruns

end Closure

/-- The two ways to move can be mixed at will. A cursor over a list shows that list. A closure of any question, with all
that is reached from the seed among the ids of its walker, shows what the loop emits from the seed, which is also what
collecting everything gives; it comes to rest where the loop ends, and then expands nothing more. -/
theorem cursors_mixed :
    (∀ (α : Type) (as : List α), ∃ last, (Cursor.protocol α).Shows (Cursor.ofList as) as last) ∧
      ∀ (α : Type) [ClosureElement α] (s : Store) (seed : Entity) (flags : ClosureFlags)
        (answer : Int → Except Failure (List α)) (ids : List Int),
        (⟨ids, answer, s.neighbours flags⟩ : Walker α).Bounded seed →
        ∃ log last, Closure.Drains ⟨ids, answer, s.neighbours flags⟩ (Closure.initial seed) log last ∧
          Closure.collectAll ⟨ids, answer, s.neighbours flags⟩ (Closure.start ⟨ids, answer, s.neighbours flags⟩ seed) =
            (last.emitted.reverse, last) ∧
          (Closure.protocol ⟨ids, answer, s.neighbours flags⟩).Shows
            (Closure.start ⟨ids, answer, s.neighbours flags⟩ seed) last.emitted.reverse last := by
  refine ⟨fun α as => ⟨_, (Cursor.runs_ofList as).shows⟩, fun α _ s seed flags answer ids hbounded => ?_⟩
  let w : Walker α := ⟨ids, answer, s.neighbours flags⟩
  obtain ⟨log, last, hd, hfuel, hall⟩ := Closure.exists_collected (w.reaches_closed seed) hbounded
  exact ⟨log, last, hd, hall, (Closure.start_runs hd hfuel).shows⟩

namespace Closure

/-- A question with a cycle and a failure: 1 is answered by 3 and 2, 2 by 1 and 3, and 3 fails. -/
def cyclic (id : Int) : Except Failure (List Entity) :=
  if id = 1 then .ok [Entity.ofId 3, Entity.ofId 2]
  else if id = 2 then .ok [Entity.ofId 1, Entity.ofId 3]
  else .error (Failure.of .database "no answer")

/-- The walker of that question over the fresh store. -/
def cyclicWalker : Walker Entity :=
  ⟨[1, 2, 3], cyclic, Store.fresh.neighbours .all⟩

theorem cyclic_closed : cyclicWalker.Closed (Entity.ofId 1) fun id => id ∈ [1, 2, 3] := by
  have hnone : ∀ id ∈ ([1, 2, 3] : List Int), ∀ e ∈ cyclicWalker.around id, e.isNone = true := by decide +kernel
  have hanswers : ∀ id ∈ ([1, 2, 3] : List Int), ∀ a ∈ cyclicWalker.answers id,
      (ClosureElement.target a).id ∈ ([1, 2, 3] : List Int) := by decide +kernel
  refine ⟨fun _ => by decide, fun id hid a ha _ => hanswers id hid a ha, fun id hid e he h => ?_⟩
  rw [hnone id hid e he] at h
  cases h

end Closure

/-- The closure of the question with a cycle and a failure shows 3, 2 and 1, also when it is moved in both ways. -/
theorem cyclic_mixed :
    (Closure.protocol Closure.cyclicWalker).element ((Closure.protocol Closure.cyclicWalker).after
        (Closure.start Closure.cyclicWalker (Entity.ofId 1)) [.next, .advance]) = some (Entity.ofId 1) ∧
      Closure.cyclicWalker.Bounded (Entity.ofId 1) ∧
      ∃ log last, Closure.Drains Closure.cyclicWalker (Closure.initial (Entity.ofId 1)) log last ∧
        Closure.collectAll Closure.cyclicWalker (Closure.start Closure.cyclicWalker (Entity.ofId 1)) =
          (last.emitted.reverse, last) ∧
        (Closure.protocol Closure.cyclicWalker).Shows (Closure.start Closure.cyclicWalker (Entity.ofId 1))
          last.emitted.reverse last := by
  have hbounded : Closure.cyclicWalker.Bounded (Entity.ofId 1) := fun _ h => Closure.cyclic_closed.reaches h
  exact ⟨by decide +kernel, hbounded, cursors_mixed.2 Entity Store.fresh (Entity.ofId 1) .all Closure.cyclic [1, 2, 3]
    hbounded⟩

end CrossIndex
