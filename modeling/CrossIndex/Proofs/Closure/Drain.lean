/-
Draining a closure. `Drains` is the loop without bounds: elements are emitted or passed over while
there are any, then the smallest due entity is expanded, until nothing is due. `Progress` says how far
the loop is in terms of the entities expanded so far and of the answers taken so far; each step keeps
it. Where all that is reachable lies in a list of ids, the loop ends, and the bounded functions do the
same as the loop.
-/
import CrossIndex.Proofs.Closure.Element
import Mathlib.Data.List.Induction
import Mathlib.Data.List.Nodup
import Mathlib.Data.List.Perm.Subperm
import Mathlib.Data.List.TakeWhile

namespace CrossIndex

variable {α : Type}

namespace Walker

/-- What an expansion answers; a failed one answers nothing. -/
def answers (w : Walker α) (id : Int) : List α :=
  match w.answer id with
  | .ok direct => direct
  | .error _ => []

/-- What is reported about an expansion. -/
def report? (w : Walker α) (id : Int) : Option String :=
  match w.answer id with
  | .ok _ => none
  | .error f => some (Closure.failureReport id f)

end Walker

namespace Closure

/-! ## Making entities due -/

theorem schedule_eq (c : Closure α) (e : Entity) : c.schedule e = { c with due := (c.schedule e).due } := by
  unfold schedule
  split <;> rfl

theorem mem_schedule_due {c : Closure α} {e : Entity} {id : Int} :
    id ∈ (c.schedule e).due ↔ id ∈ c.due ∨ (e.isNone = false ∧ e.id ∉ c.visited ∧ e.id = id) := by
  unfold schedule
  split
  · rename_i h
    simp only [Bool.or_eq_true, List.contains_iff_mem] at h
    constructor
    · exact .inl
    · rintro (hid | ⟨h1, h2, -⟩)
      · exact hid
      · rcases h with h | h
        · rw [h1] at h; cases h
        · exact absurd h h2
  · rename_i h
    simp only [Bool.or_eq_true, List.contains_iff_mem, not_or, Bool.not_eq_true] at h
    rw [IdSet.mem_insert]
    constructor
    · rintro (rfl | hid)
      · exact .inr ⟨h.1, h.2, rfl⟩
      · exact .inl hid
    · rintro (hid | ⟨-, -, rfl⟩)
      · exact .inr hid
      · exact .inl rfl

theorem schedule_due_ascending {c : Closure α} {e : Entity} (h : c.due.Pairwise (· < ·)) :
    (c.schedule e).due.Pairwise (· < ·) := by
  unfold schedule
  split
  · exact h
  · exact IdSet.pairwise_insert h

theorem foldl_schedule_eq (es : List Entity) (c : Closure α) :
    es.foldl schedule c = { c with due := (es.foldl schedule c).due } := by
  induction es generalizing c with
  | nil => rfl
  | cons e es ih => rw [List.foldl_cons, ih, schedule_eq]

theorem foldl_schedule (es : List Entity) : ∀ (c : Closure α), c.due.Pairwise (· < ·) →
    (es.foldl schedule c).due.Pairwise (· < ·) ∧ ∀ id, id ∈ (es.foldl schedule c).due ↔
      id ∈ c.due ∨ ∃ e ∈ es, e.isNone = false ∧ e.id ∉ c.visited ∧ e.id = id := by
  induction es with
  | nil => exact fun c h => ⟨h, by simp⟩
  | cons e es ih =>
    intro c h
    obtain ⟨hasc, hmem⟩ := ih (c.schedule e) (schedule_due_ascending h)
    have hvisited : (c.schedule e).visited = c.visited := by rw [schedule_eq]
    rw [List.foldl_cons]
    refine ⟨hasc, fun id => ?_⟩
    rw [hmem, mem_schedule_due, hvisited, or_assoc]
    simp

theorem expand_eq (w : Walker α) (c : Closure α) (id : Int) :
    Closure.expand w c id = { c with
      visited := IdSet.insert id c.visited
      due := ((w.around id).foldl schedule { c with visited := IdSet.insert id c.visited }).due
      direct := w.answers id
      reports := c.reports ++ (w.report? id).toList } := by
  have hframe := foldl_schedule_eq (w.around id) { c with visited := IdSet.insert id c.visited }
  unfold Closure.expand Walker.answers Walker.report?
  dsimp only
  rw [hframe]
  rcases w.answer id with f | direct <;> simp

theorem expand_emitted (w : Walker α) (c : Closure α) (id : Int) : (Closure.expand w c id).emitted = c.emitted := by
  rw [expand_eq]

end Closure

/-! ## The loop and how far it is -/

variable [ClosureElement α]

namespace Walker

/-- A set of ids with the seed and with all that its members answer and have around them. -/
structure Closed (w : Walker α) (seed : Entity) (S : Int → Prop) : Prop where
  seed : seed.isNone = false → S seed.id
  targets : ∀ id, S id → ∀ a ∈ w.answers id, (ClosureElement.target a).isNone = false → S (ClosureElement.target a).id
  around : ∀ id, S id → ∀ e ∈ w.around id, e.isNone = false → S e.id

/-- What is found from the seed, what lies around some entities, and some elements. -/
def Found (w : Walker α) (seed : Entity) (expanded : List Int) (taken : List α) (id : Int) : Prop :=
  (seed.isNone = false ∧ seed.id = id) ∨ (∃ i ∈ expanded, ∃ e ∈ w.around i, e.isNone = false ∧ e.id = id) ∨
    ∃ a ∈ taken, (ClosureElement.target a).isNone = false ∧ (ClosureElement.target a).id = id

/-- What is discovered by the expansion of some entities. -/
def Discovered (w : Walker α) (seed : Entity) (expanded : List Int) (id : Int) : Prop :=
  w.Found seed expanded (expanded.flatMap w.answers) id

end Walker

namespace Closure

/-- The loop that drains a closure: the entities that it expands, in order, and the closure at the
end. -/
inductive Drains (w : Walker α) : Closure α → List Int → Closure α → Prop
  | emit {c c' : Closure α} {a : α} {rest : List α} {log : List Int} :
      c.direct.dropWhile c.isEmitted = a :: rest → Drains w (c.emit a rest) log c' → Drains w c log c'
  | expand {c c' : Closure α} {id : Int} {due log : List Int} :
      c.direct.dropWhile c.isEmitted = [] → c.due = id :: due →
      Drains w (expand w { c with direct := [], due := due } id) log c' → Drains w c (id :: log) c'
  | done {c : Closure α} : c.direct.dropWhile c.isEmitted = [] → c.due = [] →
      Drains w c [] { c with direct := [], current := none }

/-- How far a closure is when some entities have been expanded and some of their answers taken: what
has been emitted is the taken elements without repetitions, what is due is what has been found and not
expanded, and each entity was the smallest such when its turn came. -/
structure Progress [LawfulElement α] (w : Walker α) (seed : Entity) (log : List Int) (taken : List α) (c : Closure α) :
    Prop where
  visited : ∀ id, id ∈ c.visited ↔ id ∈ log
  nodup : log.Nodup
  answers : taken ++ c.direct = log.flatMap w.answers
  emitted : c.emitted.reverse = firsts taken
  due : ∀ id, id ∈ c.due ↔ id ∉ log ∧ w.Found seed log taken id
  ascending : c.due.Pairwise (· < ·)
  reports : c.reports = log.filterMap w.report?
  order : ∀ pre id post, log = pre ++ id :: post →
    w.Discovered seed pre id ∧ id ∉ pre ∧ ∀ j, w.Discovered seed pre j → j ∉ pre → id ≤ j

theorem emit_emitted (c : Closure α) (a : α) (rest : List α) : (c.emit a rest).emitted = a :: c.emitted := by
  unfold Closure.emit
  rw [schedule_eq]

theorem Drains.length_emitted {w : Walker α} {c c' : Closure α} {log : List Int} (h : Drains w c log c') :
    c.emitted.length ≤ c'.emitted.length := by
  induction h with
  | emit _ _ ih =>
    rw [emit_emitted, List.length_cons] at ih
    omega
  | expand _ _ _ ih => rwa [expand_emitted] at ih
  | done _ _ => exact Nat.le_refl _

/-! ## The loop stays within a closed set -/

/-- A closure has expanded some entities, once each, and lies within a set: with these, with what is due, and with what
its pending answers point at. It has not emitted more than it was answered. -/
structure Within (w : Walker α) (S : Int → Prop) (log : List Int) (c : Closure α) : Prop where
  visited : ∀ id, id ∈ c.visited ↔ id ∈ log
  nodup : log.Nodup
  expanded : ∀ id ∈ log, S id
  due : ∀ id ∈ c.due, id ∉ log ∧ S id
  ascending : c.due.Pairwise (· < ·)
  direct : ∀ a ∈ c.direct, (ClosureElement.target a).isNone = false → S (ClosureElement.target a).id
  emitted : c.emitted.length + c.direct.length ≤ (log.flatMap w.answers).length

variable {w : Walker α} {seed : Entity} {S : Int → Prop} {log : List Int} {c : Closure α}

theorem initial_within (hS : w.Closed seed S) : Within w S [] (initial seed) where
  visited _ := Iff.rfl
  nodup := List.nodup_nil
  expanded _ h := by cases h
  due id h := by
    rcases hseed : seed.isNone
    · simp only [initial, hseed, Bool.false_eq_true, if_false, List.mem_singleton] at h
      exact ⟨List.not_mem_nil, h ▸ hS.seed hseed⟩
    · simp [initial, hseed] at h
  ascending := by
    rcases h : seed.isNone <;> simp [initial, h]
  direct _ h := by cases h
  emitted := Nat.le_refl _

theorem Within.emit (h : Within w S log c) {a : α} {rest : List α} (hd : c.direct.dropWhile c.isEmitted = a :: rest) :
    Within w S log (c.emit a rest) := by
  have hsuffix : (a :: rest) <:+ c.direct := hd ▸ List.dropWhile_suffix c.isEmitted
  have ha : a ∈ c.direct := hsuffix.subset List.mem_cons_self
  refine ⟨?_, h.nodup, h.expanded, fun id hid => ?_, schedule_due_ascending h.ascending, fun b hb => ?_, ?_⟩
  · unfold Closure.emit
    rw [schedule_eq]
    exact h.visited
  · rcases mem_schedule_due.1 hid with hid | ⟨hnone, hvisited, rfl⟩
    · exact h.due id hid
    · exact ⟨fun hlog => hvisited ((h.visited _).2 hlog), h.direct a ha hnone⟩
  · exact h.direct b (hsuffix.subset (List.mem_cons_of_mem a hb))
  · have hemitted := h.emitted
    have hlength := hsuffix.length_le
    rw [List.length_cons] at hlength
    rw [emit_emitted, List.length_cons]
    show c.emitted.length + 1 + rest.length ≤ _
    omega

theorem Within.expand (hS : w.Closed seed S) (h : Within w S log c) {id : Int} {due : List Int}
    (hdue : c.due = id :: due) :
    Within w S (log ++ [id]) (Closure.expand w { c with direct := [], due := due } id) := by
  obtain ⟨hid, hidS⟩ := h.due id (by rw [hdue]; exact List.mem_cons_self)
  have hasc := h.ascending
  rw [hdue, List.pairwise_cons] at hasc
  obtain ⟨hasc', hmem⟩ := foldl_schedule (w.around id)
    ({ c with direct := [], due := due, visited := IdSet.insert id c.visited } : Closure α) hasc.2
  have hlog : ∀ j, j ∈ log ++ [id] ↔ j = id ∨ j ∈ log := fun j => by simp [or_comm]
  rw [expand_eq]
  refine ⟨fun j => ?_, ?_, fun j hj => ?_, fun j hj => ?_, hasc', fun a ha => ?_, ?_⟩
  · rw [hlog, ← h.visited]
    exact IdSet.mem_insert
  · exact List.Nodup.append h.nodup (List.nodup_singleton id) (by simpa using hid)
  · rcases (hlog j).1 hj with rfl | hj
    · exact hidS
    · exact h.expanded j hj
  · rw [hlog, not_or]
    rcases (hmem j).1 hj with hj | ⟨e, he, hnone, hvisited, rfl⟩
    · have hj' := h.due j (by rw [hdue]; exact List.mem_cons_of_mem id hj)
      exact ⟨⟨fun e => absurd (hasc.1 j hj) (by rw [e]; exact Int.lt_irrefl _), hj'.1⟩, hj'.2⟩
    · rw [IdSet.mem_insert, h.visited, not_or] at hvisited
      exact ⟨hvisited, hS.around id hidS e he hnone⟩
  · exact hS.targets id hidS a ha
  · have hemitted := h.emitted
    rw [List.flatMap_append, List.length_append, List.flatMap_singleton]
    show c.emitted.length + (w.answers id).length ≤ _
    omega

/-- The loop ends if a closed set lies within the ids of the walker. -/
theorem Within.exists_drains (hS : w.Closed seed S) (hids : ∀ id, S id → id ∈ w.ids) {log : List Int} {c : Closure α}
    (h : Within w S log c) : ∃ log' c', Drains w c log' c' := by
  rcases hd : c.direct.dropWhile c.isEmitted with _ | ⟨a, rest⟩
  · rcases hdue : c.due with _ | ⟨id, due⟩
    · exact ⟨[], _, .done hd hdue⟩
    · have hnext := h.expand hS hdue
      have hlength : (log ++ [id]).length ≤ w.ids.length :=
        (hnext.nodup.subperm fun j hj => hids j (hnext.expanded j hj)).length_le
      obtain ⟨log', c', hrest⟩ := Within.exists_drains hS hids hnext
      exact ⟨id :: log', c', .expand hd hdue hrest⟩
  · have hshort : rest.length < c.direct.length := by
      have := (List.dropWhile_suffix c.isEmitted (l := c.direct)).length_le
      rw [hd, List.length_cons] at this
      omega
    obtain ⟨log', c', hrest⟩ := Within.exists_drains hS hids (h.emit hd)
    exact ⟨log', c', .emit hd hrest⟩
-- an expansion uses up one of the ids, an emitted answer is one less of the last expansion
termination_by (w.ids.length - log.length, c.direct.length)
decreasing_by
  · rw [List.length_append, List.length_singleton] at hlength
    rw [List.length_append, List.length_singleton]
    exact .left _ _ (by omega)
  · exact .right _ hshort

theorem Drains.within (hS : w.Closed seed S) {c c' : Closure α} {log' : List Int} (hd : Drains w c log' c') :
    ∀ {log : List Int}, Within w S log c → Within w S (log ++ log') c' := by
  induction hd with
  | emit h _ ih => exact fun hw => ih (hw.emit h)
  | expand _ hdue _ ih =>
    intro log hw
    have := ih (hw.expand hS hdue)
    rwa [List.append_assoc] at this
  | done h _ =>
    intro log hw
    rw [List.append_nil]
    have hnone : ∀ a ∈ ([] : List α), (ClosureElement.target a).isNone = false → S (ClosureElement.target a).id :=
      fun _ ha => by cases ha
    exact ⟨hw.visited, hw.nodup, hw.expanded, hw.due, hw.ascending, hnone, (Nat.le_add_right _ _).trans hw.emitted⟩

/-! ## Each step keeps the progress -/

variable [LawfulElement α] {taken : List α}

theorem isEmitted_eq (hp : Progress w seed log taken c) (a : α) :
    c.isEmitted a = (firsts taken).any (LawfulElement.same a) := by
  rw [← hp.emitted, Bool.eq_iff_iff]
  simp only [isEmitted, List.any_eq_true, List.mem_reverse, beq_iff_eq, LawfulElement.compare_eq]

/-- Passing over an element that has been emitted: what it points at has been found before. -/
theorem Progress.skip (hp : Progress w seed log taken c) {a : α} {rest : List α} (hd : c.direct = a :: rest)
    (ha : c.isEmitted a = true) : Progress w seed log (taken ++ [a]) { c with direct := rest } where
  visited := hp.visited
  nodup := hp.nodup
  answers := by rw [← hp.answers, hd, List.append_assoc]; rfl
  emitted := by
    rw [isEmitted_eq hp] at ha
    rw [firsts_concat, if_pos ha]
    exact hp.emitted
  due id := by
    rw [isEmitted_eq hp, List.any_eq_true] at ha
    obtain ⟨b, hb, hs⟩ := ha
    have htarget := LawfulElement.target a b hs
    have hnone : (ClosureElement.target a).isNone = (ClosureElement.target b).isNone := by
      simp only [Entity.isNone, htarget]
    have hfound : w.Found seed log (taken ++ [a]) id ↔ w.Found seed log taken id := by
      refine or_congr Iff.rfl (or_congr Iff.rfl ⟨?_, ?_⟩)
      · rintro ⟨x, hx, h⟩
        rcases List.mem_append.1 hx with hx | hx
        · exact ⟨x, hx, h⟩
        · rw [List.mem_singleton.1 hx, hnone, htarget] at h
          exact ⟨b, mem_of_mem_firsts hb, h⟩
      · rintro ⟨x, hx, h⟩
        exact ⟨x, List.mem_append_left _ hx, h⟩
    rw [hfound]
    exact hp.due id
  ascending := hp.ascending
  reports := hp.reports
  order := hp.order

theorem Progress.skipAll : ∀ {skipped rest : List α} {taken : List α} {c : Closure α}, Progress w seed log taken c →
    c.direct = skipped ++ rest → (∀ a ∈ skipped, c.isEmitted a = true) →
    Progress w seed log (taken ++ skipped) { c with direct := rest }
  | [], rest, taken, c, hp, hd, _ => by
    rw [List.append_nil]
    have hc : ({ c with direct := rest } : Closure α) = c := by rw [show rest = c.direct from hd.symm]
    rw [hc]
    exact hp
  | a :: skipped, rest, taken, c, hp, hd, hskip => by
    have h₁ := hp.skip hd (hskip a List.mem_cons_self)
    have h₂ : Progress w seed log (taken ++ [a] ++ skipped) { c with direct := rest } :=
      h₁.skipAll rfl fun b hb => hskip b (List.mem_cons_of_mem _ hb)
    rw [List.append_assoc] at h₂
    exact h₂

/-- Emitting an element that has not been emitted. -/
theorem Progress.emit (hp : Progress w seed log taken c) {a : α} {rest : List α} (hd : c.direct = a :: rest)
    (ha : c.isEmitted a = false) : Progress w seed log (taken ++ [a]) (c.emit a rest) where
  visited := by
    unfold Closure.emit
    rw [schedule_eq]
    exact hp.visited
  nodup := hp.nodup
  answers := by
    show taken ++ [a] ++ rest = _
    rw [← hp.answers, hd, List.append_assoc]
    rfl
  emitted := by
    rw [isEmitted_eq hp] at ha
    rw [emit_emitted, List.reverse_cons, hp.emitted, firsts_concat, if_neg (by simp [ha])]
  due id := by
    show id ∈ (c.schedule (ClosureElement.target a)).due ↔ _
    rw [mem_schedule_due, hp.due, hp.visited]
    have hfound : w.Found seed log (taken ++ [a]) id ↔ w.Found seed log taken id ∨
        ((ClosureElement.target a).isNone = false ∧ (ClosureElement.target a).id = id) := by
      unfold Walker.Found
      simp only [List.mem_append, List.mem_singleton]
      constructor
      · rintro (h | h | ⟨x, hx | rfl, h⟩)
        · exact .inl (.inl h)
        · exact .inl (.inr (.inl h))
        · exact .inl (.inr (.inr ⟨x, hx, h⟩))
        · exact .inr h
      · rintro ((h | h | ⟨x, hx, h⟩) | h)
        · exact .inl h
        · exact .inr (.inl h)
        · exact .inr (.inr ⟨x, .inl hx, h⟩)
        · exact .inr (.inr ⟨a, .inr rfl, h⟩)
    rw [hfound]
    constructor
    · rintro (⟨h1, h2⟩ | ⟨h1, h2, rfl⟩)
      · exact ⟨h1, .inl h2⟩
      · exact ⟨h2, .inr ⟨h1, rfl⟩⟩
    · rintro ⟨h1, h2 | ⟨h2, rfl⟩⟩
      · exact .inl ⟨h1, h2⟩
      · exact .inr ⟨h2, h1, rfl⟩
  ascending := schedule_due_ascending hp.ascending
  reports := by
    unfold Closure.emit
    rw [schedule_eq]
    exact hp.reports
  order := hp.order

/-- Expanding the smallest due entity when the answers of the last expansion are used up. -/
theorem Progress.expand (hp : Progress w seed log taken c) (hd : c.direct = []) {id : Int} {due : List Int}
    (hdue : c.due = id :: due) : Progress w seed (log ++ [id]) taken (Closure.expand w { c with due := due } id) := by
  have htaken : taken = log.flatMap w.answers := by rw [← hp.answers, hd, List.append_nil]
  have hid := (hp.due id).1 (by rw [hdue]; exact List.mem_cons_self)
  have hasc := hp.ascending
  rw [hdue, List.pairwise_cons] at hasc
  let c₁ : Closure α := { c with due := due, visited := IdSet.insert id c.visited }
  obtain ⟨hasc₁, hmem⟩ := foldl_schedule (w.around id) c₁ hasc.2
  rw [expand_eq]
  refine ⟨fun j => ?_, ?_, ?_, ?_, fun j => ?_, hasc₁, ?_, fun pre j post h => ?_⟩
  · show j ∈ IdSet.insert id c.visited ↔ _
    rw [IdSet.mem_insert, hp.visited, List.mem_append, List.mem_singleton, or_comm]
  · rw [List.nodup_append]
    refine ⟨hp.nodup, List.nodup_singleton _, fun x hx y hy hxy => ?_⟩
    rw [List.mem_singleton.1 hy] at hxy
    exact hid.1 (hxy ▸ hx)
  · rw [List.flatMap_append, ← htaken, List.flatMap_singleton]
  · exact hp.emitted
  · -- What is due now was due before and is not `id`, or lies around `id`.
    show j ∈ ((w.around id).foldl schedule c₁).due ↔ _
    rw [hmem]
    show (j ∈ due ∨ ∃ e ∈ w.around id, e.isNone = false ∧ e.id ∉ IdSet.insert id c.visited ∧ e.id = j) ↔ _
    have hj : j ∈ due ↔ j ≠ id ∧ j ∈ c.due := by
      rw [hdue, List.mem_cons]
      constructor
      · intro h
        exact ⟨fun e => absurd (hasc.1 j h) (by rw [e]; exact Int.lt_irrefl _), .inr h⟩
      · rintro ⟨hne, h | h⟩
        · exact absurd h hne
        · exact h
    rw [hj, hp.due]
    simp only [IdSet.mem_insert, hp.visited, List.mem_append, List.mem_singleton, not_or]
    constructor
    · rintro (⟨hne, h1, h2⟩ | ⟨e, he, h1, ⟨h2, h3⟩, rfl⟩)
      · refine ⟨⟨h1, hne⟩, ?_⟩
        rcases h2 with h2 | ⟨i, hi, h2⟩ | h2
        · exact .inl h2
        · exact .inr (.inl ⟨i, List.mem_append_left _ hi, h2⟩)
        · exact .inr (.inr h2)
      · exact ⟨⟨h3, h2⟩, .inr (.inl ⟨id, by simp, e, he, h1, rfl⟩)⟩
    · rintro ⟨⟨h1, hne⟩, h2 | ⟨i, hi, e, he, h2, rfl⟩ | h2⟩
      · exact .inl ⟨hne, h1, .inl h2⟩
      · rcases List.mem_append.1 hi with hi | hi
        · exact .inl ⟨hne, h1, .inr (.inl ⟨i, hi, e, he, h2, rfl⟩)⟩
        · rw [List.mem_singleton.1 hi] at he
          exact .inr ⟨e, he, h2, ⟨hne, h1⟩, rfl⟩
      · exact .inl ⟨hne, h1, .inr (.inr h2)⟩
  · show c.reports ++ (w.report? id).toList = _
    rw [hp.reports, List.filterMap_append]
    cases h : w.report? id <;> simp [h]
  · rcases List.eq_nil_or_concat post with rfl | ⟨post', x, rfl⟩
    · -- The entity just expanded: all answers have been taken, so what is due is what is discovered.
      obtain ⟨rfl, hx⟩ := List.append_inj' h rfl
      obtain rfl : id = j := by simpa using hx
      have hdisc : ∀ x, w.Discovered seed log x ↔ w.Found seed log taken x := fun x => by rw [htaken]; rfl
      refine ⟨(hdisc id).2 hid.2, hid.1, fun x hx hnot => ?_⟩
      have hxdue := (hp.due x).2 ⟨hnot, (hdisc x).1 hx⟩
      rw [hdue, List.mem_cons] at hxdue
      rcases hxdue with rfl | hxdue
      · exact Int.le_refl _
      · exact Int.le_of_lt (hasc.1 x hxdue)
    · have h' : log ++ [id] = (pre ++ j :: post') ++ [x] := by rw [h]; simp
      exact hp.order pre j post' (List.append_inj' h' rfl).1

theorem initial_progress (w : Walker α) (seed : Entity) : Progress w seed [] [] (initial seed) where
  visited id := Iff.rfl
  nodup := List.nodup_nil
  answers := rfl
  emitted := rfl
  due id := by
    rcases h : seed.isNone
    · simp [initial, Walker.Found, h, eq_comm (a := id)]
    · simp [initial, Walker.Found, h]
  ascending := by
    rcases h : seed.isNone <;> simp [initial, h]
  reports := rfl
  order pre id post h := by
    have := congrArg List.length h
    simp at this

/-! ## The loop ends -/

/-- Every closed set has all that has been expanded, since each was discovered by those before it. -/
theorem Progress.least (hp : Progress w seed log taken c) {S : Int → Prop} (hS : w.Closed seed S) :
    ∀ pre post, log = pre ++ post → ∀ id ∈ pre, S id := by
  intro pre
  induction pre using List.reverseRecOn with
  | nil => exact fun post _ id h => by cases h
  | append_singleton pre id ih =>
    intro post h j hj
    have hbefore := ih (id :: post) (by rw [h, List.append_assoc]; rfl)
    rcases List.mem_append.1 hj with hj | hj
    · exact hbefore j hj
    · rw [List.mem_singleton.1 hj]
      obtain ⟨hdisc, -⟩ := hp.order pre id post (by rw [h, List.append_assoc]; rfl)
      rcases hdisc with ⟨h1, rfl⟩ | ⟨i, hi, e, he, h1, rfl⟩ | ⟨a, ha, h1, rfl⟩
      · exact hS.seed h1
      · exact hS.around i (hbefore i hi) e he h1
      · obtain ⟨i, hi, ha⟩ := List.mem_flatMap.1 ha
        exact hS.targets i (hbefore i hi) a ha h1

theorem Progress.subset (hp : Progress w seed log taken c) {S : Int → Prop} (hS : w.Closed seed S) :
    ∀ id ∈ log, S id :=
  hp.least hS log [] (List.append_nil _).symm

theorem Progress.drop (hp : Progress w seed log taken c) :
    Progress w seed log (taken ++ c.direct.takeWhile c.isEmitted) { c with direct := c.direct.dropWhile c.isEmitted } :=
  hp.skipAll List.takeWhile_append_dropWhile.symm fun _ ha => List.mem_takeWhile_imp ha

omit [LawfulElement α] in
theorem emit_direct (c : Closure α) (direct : List α) (a : α) (rest : List α) :
    ({ c with direct := direct } : Closure α).emit a rest = c.emit a rest := by
  unfold Closure.emit schedule
  dsimp only
  split <;> rfl

theorem Progress.dropEmit (hp : Progress w seed log taken c) {a : α} {rest : List α}
    (h : c.direct.dropWhile c.isEmitted = a :: rest) :
    Progress w seed log (taken ++ c.direct.takeWhile c.isEmitted ++ [a]) (c.emit a rest) := by
  have ha : c.isEmitted a = false := by
    have := List.head?_dropWhile_not c.isEmitted c.direct
    rw [h] at this
    simpa using this
  rw [← emit_direct c (c.direct.dropWhile c.isEmitted)]
  exact hp.drop.emit h ha

theorem Progress.dropExpand (hp : Progress w seed log taken c) (h : c.direct.dropWhile c.isEmitted = []) {id : Int}
    {due : List Int} (hdue : c.due = id :: due) :
    Progress w seed (log ++ [id]) (taken ++ c.direct.takeWhile c.isEmitted)
      (Closure.expand w { c with direct := [], due := due } id) := by
  have hdrop := hp.drop
  rw [h] at hdrop
  exact hdrop.expand rfl hdue

/-- Passing over what is left of the last expansion, and stopping there. -/
theorem Progress.finish (hp : Progress w seed log taken c) (h : c.direct.dropWhile c.isEmitted = []) :
    Progress w seed log (taken ++ c.direct.takeWhile c.isEmitted) { c with direct := [], current := none } := by
  have hdrop := hp.drop
  rw [h] at hdrop
  exact ⟨hdrop.visited, hdrop.nodup, hdrop.answers, hdrop.emitted, hdrop.due, hdrop.ascending, hdrop.reports,
    hdrop.order⟩

/-- However many expansions one move may take, it is progress. -/
theorem Progress.settle (fuel : Nat) (hp : Progress w seed log taken c) :
    ∃ log' taken', Progress w seed log' taken' (Closure.settle w fuel c) := by
  -- on the expansions that are left; a move that has none left stops just as at the end
  induction fuel generalizing log taken c with
  | zero =>
    unfold Closure.settle
    split
    · rename_i h
      exact ⟨_, _, hp.dropEmit h⟩
    · contradiction
    · rename_i h _
      exact ⟨_, _, hp.finish h⟩
  | succ fuel ih =>
    unfold Closure.settle
    split
    · rename_i h
      exact ⟨_, _, hp.dropEmit h⟩
    · rename_i h hfuel hdue
      cases hfuel
      exact ih (hp.dropExpand h hdue)
    · rename_i h _
      exact ⟨_, _, hp.finish h⟩

theorem Progress.target_mem (hp : Progress w seed log taken c) (hS : w.Closed seed S) {a : α}
    (ha : a ∈ taken ++ c.direct)
    (hnone : (ClosureElement.target a).isNone = false) : S (ClosureElement.target a).id := by
  rw [hp.answers] at ha
  obtain ⟨i, hi, ha⟩ := List.mem_flatMap.1 ha
  exact hS.targets i (hp.subset hS i hi) a ha hnone

/-- A closure that is some way on lies within every closed set. -/
theorem Progress.within (hp : Progress w seed log taken c) (hS : w.Closed seed S) : Within w S log c where
  visited := hp.visited
  nodup := hp.nodup
  expanded := hp.subset hS
  due id hid := by
    obtain ⟨hnew, ⟨hseed, rfl⟩ | ⟨i, hi, e, he, hnone, rfl⟩ | ⟨a, ha, hnone, rfl⟩⟩ := (hp.due id).1 hid
    · exact ⟨hnew, hS.seed hseed⟩
    · exact ⟨hnew, hS.around i (hp.subset hS i hi) e he hnone⟩
    · exact ⟨hnew, hp.target_mem hS (List.mem_append_left c.direct ha) hnone⟩
  ascending := hp.ascending
  direct a ha hnone := hp.target_mem hS (List.mem_append_right taken ha) hnone
  emitted := by
    have hfirsts := length_firsts_le taken
    rw [← hp.emitted, List.length_reverse] at hfirsts
    rw [← hp.answers, List.length_append]
    omega

/-- The loop ends if a closed set lies within the ids of the walker. -/
theorem exists_drains (hS : w.Closed seed S) (hids : ∀ id, S id → id ∈ w.ids) {log : List Int}
    {taken : List α} {c : Closure α} (hp : Progress w seed log taken c) : ∃ log' c', Drains w c log' c' :=
  (hp.within hS).exists_drains hS hids

/-- At the end of the loop nothing is left to do. -/
theorem Drains.progress {c c' : Closure α} {log' : List Int} (h : Drains w c log' c') :
    ∀ {log : List Int} {taken : List α}, Progress w seed log taken c →
      ∃ taken', Progress w seed (log ++ log') taken' c' ∧ c'.direct = [] ∧ c'.due = [] ∧ c'.current = none := by
  induction h with
  | emit h _ ih => exact fun hp => ih (hp.dropEmit h)
  | expand h hdue _ ih =>
    intro log taken hp
    have := ih (hp.dropExpand h hdue)
    rwa [List.append_assoc] at this
  | done h hdue =>
    intro log taken hp
    rw [List.append_nil]
    exact ⟨_, hp.finish h, rfl, hdue, rfl⟩

omit [LawfulElement α] in
theorem Drains.unique {c c₁ c₂ : Closure α} {log₁ log₂ : List Int} (h₁ : Drains w c log₁ c₁) (h₂ : Drains w c log₂ c₂) :
    log₂ = log₁ ∧ c₂ = c₁ := by
  induction h₁ generalizing log₂ c₂ with
  | emit h _ ih =>
    cases h₂ with
    | emit h' hd => rw [h] at h'; cases h'; exact ih hd
    | expand h' _ _ => rw [h] at h'; cases h'
    | done h' _ => rw [h] at h'; cases h'
  | expand h hdue _ ih =>
    cases h₂ with
    | emit h' _ => rw [h] at h'; cases h'
    | expand h' hdue' hd =>
      rw [hdue] at hdue'
      cases hdue'
      obtain ⟨rfl, rfl⟩ := ih hd
      exact ⟨rfl, rfl⟩
    | done h' hdue' => rw [hdue] at hdue'; cases hdue'
  | done h hdue =>
    cases h₂ with
    | emit h' _ => rw [h] at h'; cases h'
    | expand h' hdue' _ => rw [hdue] at hdue'; cases hdue'
    | done h' _ => exact ⟨rfl, rfl⟩

end Closure

end CrossIndex
