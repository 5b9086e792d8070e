/-
The closure of a question is exact. Collecting all elements does what the unbounded loop does, so what
it leaves behind can be read off the loop: which entities were expanded and in which order, what was
emitted, what was reported.
-/
import CrossIndex.Path.Normal
import CrossIndex.Proofs.Closure.Drain
import CrossIndex.Store.Ingest
import Mathlib.Algebra.Order.BigOperators.Group.List
import Mathlib.Algebra.Order.Ring.Nat

namespace CrossIndex.Closure

variable {α : Type} [ClosureElement α]

/-! ## The bounded functions follow the loop -/

/-- One move with enough fuel: to the end of the loop, or to the next element, from which the loop goes
on. -/
theorem settle_of_drains {w : Walker α} {c c' : Closure α} {log : List Int} (h : Drains w c log c') :
    ∀ fuel, log.length ≤ fuel →
      settle w fuel c = c' ∧ c'.emitted = c.emitted ∧ c'.current = none ∨
      ∃ a log', (settle w fuel c).current = some a ∧ (settle w fuel c).emitted = a :: c.emitted ∧
        Drains w (settle w fuel c) log' c' ∧ log'.length ≤ log.length := by
  induction h with
  | @emit c c' a rest log h hd ih =>
    intro fuel hfuel
    have hsettle : settle w fuel c = c.emit a rest := by
      unfold settle
      rw [h]
    rw [hsettle]
    exact .inr ⟨a, log, rfl, emit_emitted c a rest, hd, Nat.le_refl _⟩
  | @expand c c' id due log h hdue hd ih =>
    intro fuel hfuel
    obtain ⟨fuel, rfl⟩ : ∃ n, fuel = n + 1 := ⟨fuel - 1, by rw [List.length_cons] at hfuel; omega⟩
    have hsettle : settle w (fuel + 1) c = settle w fuel (expand w { c with direct := [], due := due } id) := by
      conv_lhs => unfold settle
      rw [h, hdue]
    rw [List.length_cons] at hfuel
    rw [hsettle]
    rcases ih fuel (by omega) with ⟨h1, h2, h3⟩ | ⟨a, log', h1, h2, h3, h4⟩
    · exact .inl ⟨h1, by rw [h2, expand_emitted], h3⟩
    · exact .inr ⟨a, log', h1, by rw [h2, expand_emitted], h3, by rw [List.length_cons]; omega⟩
  | @done c h hdue =>
    intro fuel _
    left
    refine ⟨?_, rfl, rfl⟩
    unfold settle
    rw [h, hdue]
    cases fuel <;> rfl

omit [ClosureElement α] in
theorem foldl_schedule_current (current : Option α) (es : List Entity) (c : Closure α) :
    es.foldl schedule { c with current := current } = { es.foldl schedule c with current := current } := by
  induction es generalizing c with
  | nil => rfl
  | cons e es ih =>
    have hstep : ({ c with current := current } : Closure α).schedule e = { c.schedule e with current := current } := by
      unfold schedule
      dsimp only
      split <;> rfl
    rw [List.foldl_cons, List.foldl_cons, hstep, ih]

omit [ClosureElement α] in
theorem expand_current (w : Walker α) (current : Option α) (c : Closure α) (id : Int) :
    expand w { c with current := current } id = { expand w c id with current := current } := by
  have hfold := foldl_schedule_current current (w.around id) { c with visited := IdSet.insert id c.visited }
  unfold expand
  dsimp only at hfold ⊢
  rw [hfold]
  cases w.answer id <;> rfl

theorem emit_current (c : Closure α) (current : Option α) (a : α) (rest : List α) :
    ({ c with current := current } : Closure α).emit a rest = c.emit a rest := by
  unfold emit schedule
  dsimp only
  split <;> rfl

/-- What was fetched ahead before a move makes no difference to it. -/
theorem settle_current (w : Walker α) (current : Option α) (fuel : Nat) (c : Closure α) :
    settle w fuel { c with current := current } = settle w fuel c := by
  have hemitted (c : Closure α) : ({ c with current := current } : Closure α).isEmitted = c.isEmitted := rfl
  induction fuel generalizing c with
  | zero =>
    unfold settle
    dsimp only
    rw [hemitted]
    split
    · exact emit_current ..
    · contradiction
    · rfl
  | succ fuel ih =>
    conv => lhs; unfold settle
    conv => rhs; unfold settle
    dsimp only
    rw [hemitted]
    split
    · exact emit_current ..
    · rename_i id due _ hfuel _
      cases hfuel
      have hexpand := expand_current w current { c with direct := [], due := due } id
      exact (congrArg (settle w fuel) hexpand).trans (ih _)
    · rfl

/-- Taking an element and then moving on comes to the same as moving on. -/
theorem next_eq (w : Walker α) (c : Closure α) : c.next w = (c.current, c.advance w) := by
  unfold next advance
  cases hc : c.current with
  | none => rfl
  | some a => exact congrArg (some a, ·) (settle_current w none (fuel w) c)

theorem collect_of_current_none {w : Walker α} {c : Closure α} (hc : c.current = none) (n : Nat) :
    collect w n c = ([], c) := by
  cases n with
  | zero => rfl
  | succ n => simp [collect, next_eq, advance, hc]

/-- Collecting from an element on gives it and all that the loop emits after it. -/
theorem collect_of_drains {w : Walker α} {c' : Closure α} : ∀ (n : Nat) {c : Closure α} {log : List Int} {a : α},
    Drains w c log c' → log.length ≤ fuel w → c.current = some a → c'.emitted.length < n + c.emitted.length →
    ∃ out, c'.emitted.reverse = c.emitted.reverse ++ out ∧ collect w n c = (a :: out, c')
  | 0, c, log, a, hd, _, _, hn => by
    have := hd.length_emitted
    omega
  | n + 1, c, log, a, hd, hfuel, hc, hn => by
    have hcollect : collect w (n + 1) c =
        (a :: (collect w n (settle w (fuel w) c)).1, (collect w n (settle w (fuel w) c)).2) := by
      rw [collect]
      simp [next_eq, advance, hc]
    rw [hcollect]
    rcases settle_of_drains hd (fuel w) hfuel with ⟨hend, hemitted, hnone⟩ | ⟨b, log', hb, hemitted, hd', hlog⟩
    · refine ⟨[], by rw [hemitted, List.append_nil], ?_⟩
      rw [hend, collect_of_current_none hnone]
    · obtain ⟨out, hout, hcol⟩ := collect_of_drains n hd' (hlog.trans hfuel) hb (by
        rw [hemitted, List.length_cons]
        omega)
      refine ⟨b :: out, ?_, by rw [hcol]⟩
      rw [hout, hemitted, List.reverse_cons, List.append_assoc]
      rfl

/-- Starting and collecting everything gives what the loop emits, and leaves what the loop leaves. -/
theorem collectAll_of_drains {w : Walker α} {seed : Entity} {c' : Closure α} {log : List Int}
    (hd : Drains w (initial seed) log c') (hfuel : log.length ≤ fuel w) (hcapacity : c'.emitted.length ≤ capacity w) :
    collectAll w (start w seed) = (c'.emitted.reverse, c') := by
  unfold collectAll start
  rcases settle_of_drains hd (fuel w) hfuel with ⟨hend, hemitted, hnone⟩ | ⟨a, log', ha, hemitted, hd', hlog⟩
  · rw [hend, collect_of_current_none hnone, hemitted]
    rfl
  · obtain ⟨out, hout, hcollect⟩ := collect_of_drains (capacity w + 1) hd' (hlog.trans hfuel) ha (by omega)
    rw [hcollect, hout, hemitted]
    rfl

omit [ClosureElement α] in
theorem length_answers_le {w : Walker α} {log : List Int} (hn : log.Nodup) (hs : ∀ id ∈ log, id ∈ w.ids) :
    (log.flatMap w.answers).length ≤ capacity w := by
  have hcapacity : capacity w = (w.ids.map fun id => (w.answers id).length).sum := by
    unfold capacity
    rw [List.sum_eq_foldr]
    congr 1
    apply List.map_congr_left
    intro id _
    unfold Walker.answers
    cases w.answer id <;> rfl
  rw [hcapacity, List.length_flatMap]
  obtain ⟨l, hperm, hsub⟩ := hn.subperm hs
  rw [← (hperm.map _).sum_eq]
  exact (hsub.map _).sum_le_sum fun _ _ => Nat.zero_le _

/-- If a closed set lies among the ids of the walker, the loop ends, the bounds leave room for all of it, and collecting
everything comes to what it does. -/
theorem exists_collected {w : Walker α} {seed : Entity} {S : Int → Prop} (hS : w.Closed seed S)
    (hids : ∀ id, S id → id ∈ w.ids) : ∃ log last, Drains w (initial seed) log last ∧ log.length ≤ fuel w ∧
      collectAll w (start w seed) = (last.emitted.reverse, last) := by
  have hinitial := initial_within hS
  obtain ⟨log, last, hd⟩ := hinitial.exists_drains hS hids
  have hw := hd.within hS hinitial
  rw [List.nil_append] at hw
  have hsub : ∀ id ∈ log, id ∈ w.ids := fun id hid => hids id (hw.expanded id hid)
  have hfuel : log.length ≤ fuel w := (hw.nodup.subperm hsub).length_le
  have hcapacity : last.emitted.length ≤ capacity w :=
    (Nat.le_add_right _ _).trans (hw.emitted.trans (length_answers_le hw.nodup hsub))
  exact ⟨log, last, hd, hfuel, collectAll_of_drains hd hfuel hcapacity⟩

end Closure

/-! ## What the flags ask for -/

namespace Store

/-- The neighbours of an entity are what overrides it, what it overrides and what it renames, each if its
flag is set. -/
theorem mem_neighbours {s : Store} {flags : ClosureFlags} {id : Int} {e : Entity} :
    e ∈ s.neighbours flags id ↔ (flags.fromOverriding = true ∧ e ∈ s.overriddenBy id) ∨
      (flags.fromOverridden = true ∧ e = s.overrides id) ∨ (flags.fromRenames = true ∧ e = s.renamingOf id) := by
  unfold neighbours
  rw [List.mem_append, List.mem_append, or_assoc]
  cases flags.fromOverriding <;> cases flags.fromOverridden <;> cases flags.fromRenames <;> simp

variable {α : Type} [ClosureElement α]

/-- A set of ids that has the seed, and with an entity all that its answer points at and the neighbours
that the flags ask for. The null entity is passed over everywhere. -/
structure ClosedUnder (s : Store) (flags : ClosureFlags) (answer : Int → Except Failure (List α)) (seed : Entity)
    (S : Int → Prop) : Prop where
  seed : seed.isNone = false → S seed.id
  targets : ∀ id found, S id → answer id = .ok found → ∀ a ∈ found, (ClosureElement.target a).isNone = false →
    S (ClosureElement.target a).id
  overriding : flags.fromOverriding = true → ∀ id, S id → ∀ e ∈ s.overriddenBy id, e.isNone = false → S e.id
  overridden : flags.fromOverridden = true → ∀ id, S id → (s.overrides id).isNone = false → S (s.overrides id).id
  renamed : flags.fromRenames = true → ∀ id, S id → (s.renamingOf id).isNone = false → S (s.renamingOf id).id

/-- How an entity is discovered by the expansion of some others: it is the seed, an answer points at it, or
it is a neighbour that the flags ask for. -/
inductive Discovers (s : Store) (flags : ClosureFlags) (answer : Int → Except Failure (List α)) (seed : Entity)
    (expanded : List Int) : Int → Prop
  | seed : seed.isNone = false → Discovers s flags answer seed expanded seed.id
  | target {id : Int} {found : List α} {a : α} : id ∈ expanded → answer id = .ok found → a ∈ found →
      (ClosureElement.target a).isNone = false → Discovers s flags answer seed expanded (ClosureElement.target a).id
  | overriding {id : Int} {e : Entity} : flags.fromOverriding = true → id ∈ expanded → e ∈ s.overriddenBy id →
      e.isNone = false → Discovers s flags answer seed expanded e.id
  | overridden {id : Int} : flags.fromOverridden = true → id ∈ expanded → (s.overrides id).isNone = false →
      Discovers s flags answer seed expanded (s.overrides id).id
  | renamed {id : Int} : flags.fromRenames = true → id ∈ expanded → (s.renamingOf id).isNone = false →
      Discovers s flags answer seed expanded (s.renamingOf id).id

end Store

namespace Walker

variable {α : Type}

theorem mem_answers {w : Walker α} {id : Int} {a : α} :
    a ∈ w.answers id ↔ ∃ found, w.answer id = .ok found ∧ a ∈ found := by
  unfold answers
  cases w.answer id <;> simp

variable [ClosureElement α] {s : Store} {flags : ClosureFlags} {answer : Int → Except Failure (List α)}
  {ids : List Int} {seed : Entity}

/-- What is closed for the walker of a question is closed under its answers and the flags. -/
theorem closed_iff {S : Int → Prop} :
    (⟨ids, answer, s.neighbours flags⟩ : Walker α).Closed seed S ↔ s.ClosedUnder flags answer seed S := by
  constructor
  · intro h
    refine ⟨h.seed, fun id found hid hok a ha => h.targets id hid a (mem_answers.2 ⟨found, hok, ha⟩), ?_, ?_, ?_⟩
    · exact fun hflag id hid e he => h.around id hid e (Store.mem_neighbours.2 (.inl ⟨hflag, he⟩))
    · exact fun hflag id hid => h.around id hid _ (Store.mem_neighbours.2 (.inr (.inl ⟨hflag, rfl⟩)))
    · exact fun hflag id hid => h.around id hid _ (Store.mem_neighbours.2 (.inr (.inr ⟨hflag, rfl⟩)))
  · intro h
    refine ⟨h.seed, fun id hid a ha hnone => ?_, fun id hid e he hnone => ?_⟩
    · obtain ⟨found, hok, ha⟩ := mem_answers.1 ha
      exact h.targets id found hid hok a ha hnone
    · rcases Store.mem_neighbours.1 he with ⟨hflag, he⟩ | ⟨hflag, rfl⟩ | ⟨hflag, rfl⟩
      · exact h.overriding hflag id hid e he hnone
      · exact h.overridden hflag id hid hnone
      · exact h.renamed hflag id hid hnone

theorem discovered_iff {expanded : List Int} {j : Int} :
    (⟨ids, answer, s.neighbours flags⟩ : Walker α).Discovered seed expanded j ↔
      s.Discovers flags answer seed expanded j := by
  constructor
  · rintro (⟨hnone, rfl⟩ | ⟨id, hid, e, he, hnone, rfl⟩ | ⟨a, ha, hnone, rfl⟩)
    · exact .seed hnone
    · rcases Store.mem_neighbours.1 he with ⟨hflag, he⟩ | ⟨hflag, rfl⟩ | ⟨hflag, rfl⟩
      · exact .overriding hflag hid he hnone
      · exact .overridden hflag hid hnone
      · exact .renamed hflag hid hnone
    · obtain ⟨id, hid, ha⟩ := List.mem_flatMap.1 ha
      obtain ⟨found, hok, ha⟩ := mem_answers.1 ha
      exact .target hid hok ha hnone
  · rintro (hnone | ⟨hid, hok, ha, hnone⟩ | ⟨hflag, hid, he, hnone⟩ | ⟨hflag, hid, hnone⟩ | ⟨hflag, hid, hnone⟩)
    · exact .inl ⟨hnone, rfl⟩
    · exact .inr (.inr ⟨_, List.mem_flatMap.2 ⟨_, hid, mem_answers.2 ⟨_, hok, ha⟩⟩, hnone, rfl⟩)
    · exact .inr (.inl ⟨_, hid, _, Store.mem_neighbours.2 (.inl ⟨hflag, he⟩), hnone, rfl⟩)
    · exact .inr (.inl ⟨_, hid, _, Store.mem_neighbours.2 (.inr (.inl ⟨hflag, rfl⟩)), hnone, rfl⟩)
    · exact .inr (.inl ⟨_, hid, _, Store.mem_neighbours.2 (.inr (.inr ⟨hflag, rfl⟩)), hnone, rfl⟩)

end Walker

namespace Closure

variable {α : Type} [ClosureElement α] [LawfulElement α]

/-! ## Exactness -/

/-- What draining the closure of a question comes to, given the entities in the order of their expansion,
what was emitted and the closure at the end. -/
structure Exact (s : Store) (flags : ClosureFlags) (w : Walker α) (seed : Entity) (log : List Int) (out : List α)
    (c : Closure α) : Prop where
  /-- The loop ends, in one way only. -/
  drains : Drains w (initial seed) log c
  unique : ∀ log' c', Drains w (initial seed) log' c' → log' = log ∧ c' = c
  finished : c.current = none
  /-- The visited entities are the least set that is closed under answers and flags. -/
  closed : s.ClosedUnder flags w.answer seed fun id => id ∈ c.visited
  least : ∀ S, s.ClosedUnder flags w.answer seed S → ∀ id ∈ c.visited, S id
  /-- What is emitted is the first occurrences among the answers in the order of expansion. -/
  emitted : out = firsts (log.flatMap w.answers)
  distinct : out.Pairwise fun a b => LawfulElement.same a b = false
  answered : ∀ a ∈ out, ∃ id ∈ c.visited, a ∈ w.answers id
  /-- The seed comes first, and then always the smallest that is discovered and not expanded. -/
  starts : log.head? = if seed.isNone then none else some seed.id
  order : ∀ pre id post, log = pre ++ id :: post → s.Discovers flags w.answer seed pre id ∧ id ∉ pre ∧
    ∀ j, s.Discovers flags w.answer seed pre j → j ∉ pre → id ≤ j
  /-- Every visited entity is expanded once; the failures among them are reported once each. -/
  visited : ∀ id, id ∈ c.visited ↔ id ∈ log
  nodup : log.Nodup
  reports : c.reports = log.filterMap w.report?

/-- Where everything is done, all that has been discovered has been expanded. -/
theorem Progress.mem_of_discovered {w : Walker α} {seed : Entity} {log : List Int} {taken : List α} {c : Closure α}
    (hp : Progress w seed log taken c) (hdirect : c.direct = []) (hdue : c.due = []) {id : Int}
    (h : w.Discovered seed log id) : id ∈ log := by
  have htaken : taken = log.flatMap w.answers := by rw [← hp.answers, hdirect, List.append_nil]
  by_contra hnot
  have hmem := (hp.due id).2 ⟨hnot, by rw [htaken]; exact h⟩
  rw [hdue] at hmem
  cases hmem

theorem Progress.closed {w : Walker α} {seed : Entity} {log : List Int} {taken : List α} {c : Closure α}
    (hp : Progress w seed log taken c) (hdirect : c.direct = []) (hdue : c.due = []) :
    w.Closed seed fun id => id ∈ c.visited where
  seed h := (hp.visited _).2 (hp.mem_of_discovered hdirect hdue (.inl ⟨h, rfl⟩))
  targets id hid a ha h := by
    rw [hp.visited] at hid
    rw [hp.visited]
    exact hp.mem_of_discovered hdirect hdue (.inr (.inr ⟨a, List.mem_flatMap.2 ⟨id, hid, ha⟩, h, rfl⟩))
  around id hid e he h := by
    rw [hp.visited] at hid
    rw [hp.visited]
    exact hp.mem_of_discovered hdirect hdue (.inr (.inl ⟨id, hid, e, he, h, rfl⟩))

theorem Progress.starts {w : Walker α} {seed : Entity} {log : List Int} {taken : List α} {c : Closure α}
    (hp : Progress w seed log taken c) (hdirect : c.direct = []) (hdue : c.due = []) :
    log.head? = if seed.isNone then none else some seed.id := by
  rcases log with _ | ⟨id, log⟩
  · rcases h : seed.isNone
    · have hmem : seed.id ∈ ([] : List Int) := hp.mem_of_discovered hdirect hdue (.inl ⟨h, rfl⟩)
      cases hmem
    · rfl
  · obtain ⟨hdisc, -⟩ := hp.order [] id log rfl
    rcases hdisc with ⟨h, hid⟩ | ⟨i, hi, -⟩ | ⟨a, ha, -⟩
    · rw [h, hid]
      rfl
    · cases hi
    · cases ha

/-- The closure of a question from a seed is exact, for every store, all flags and every question, also
one that fails, if some set that is closed under answers and flags lies within a list of ids. -/
theorem closure_exact (s : Store) (seed : Entity) (flags : ClosureFlags) (answer : Int → Except Failure (List α))
    (ids : List Int) (hfinite : ∃ S, s.ClosedUnder flags answer seed S ∧ ∀ id, S id → id ∈ ids) :
    ∃ log, Exact s flags ⟨ids, answer, s.neighbours flags⟩ seed log
      (collectAll ⟨ids, answer, s.neighbours flags⟩ (start ⟨ids, answer, s.neighbours flags⟩ seed)).1
      (collectAll ⟨ids, answer, s.neighbours flags⟩ (start ⟨ids, answer, s.neighbours flags⟩ seed)).2 := by
  let w : Walker α := ⟨ids, answer, s.neighbours flags⟩
  obtain ⟨S, hS, hids⟩ := hfinite
  have hclosed : w.Closed seed S := Walker.closed_iff.2 hS
  obtain ⟨log, c, hd⟩ := exists_drains hclosed hids (initial_progress w seed)
  obtain ⟨taken, hp, hdirect, hdue, hnone⟩ := hd.progress (initial_progress w seed)
  rw [List.nil_append] at hp
  have htaken : taken = log.flatMap w.answers := by rw [← hp.answers, hdirect, List.append_nil]
  have hemitted : c.emitted.reverse = firsts (log.flatMap w.answers) := by rw [hp.emitted, htaken]
  -- the loop has ended by itself, so it remains to see that the bounds of `collectAll` allow for it
  have hsub : ∀ id ∈ log, id ∈ w.ids := fun id hid => hids id (hp.subset hclosed id hid)
  have hfuel : log.length ≤ fuel w := (hp.nodup.subperm hsub).length_le
  have hcapacity : c.emitted.length ≤ capacity w := by
    rw [← List.length_reverse, hemitted]
    exact (length_firsts_le _).trans (length_answers_le hp.nodup hsub)
  have hall := collectAll_of_drains hd hfuel hcapacity
  refine ⟨log, ?_⟩
  rw [hall]
  refine ⟨hd, fun log' c' h => hd.unique h, hnone, Walker.closed_iff.1 (hp.closed hdirect hdue), fun T hT id hid => ?_,
    hemitted, ?_, fun a ha => ?_, hp.starts hdirect hdue, fun pre id post h => ?_, hp.visited, hp.nodup, hp.reports⟩
  · exact hp.subset (Walker.closed_iff.2 hT) id ((hp.visited id).1 hid)
  · rw [hemitted]
    exact firsts_pairwise _
  · rw [hemitted] at ha
    obtain ⟨id, hid, ha⟩ := List.mem_flatMap.1 (mem_of_mem_firsts ha)
    exact ⟨id, (hp.visited id).2 hid, ha⟩
  · obtain ⟨hdiscovered, hnew, hleast⟩ := hp.order pre id post h
    exact ⟨Walker.discovered_iff.1 hdiscovered, hnew, fun j hj => hleast j (Walker.discovered_iff.2 hj)⟩

namespace Sample

/-- A procedure that is recorded at a line. -/
def area (line : Int) : EntityKey := ⟨"Area", some ⟨"shapes.ads", line, 14⟩⟩

/-- Five procedures: the third overrides the first and renames the fourth, and the second overrides the
fifth. -/
def shapes : UnitRecord where
  indexFile := "shapes.ali"
  sourceFiles := ["shapes.ads"]
  entities := [1, 2, 3, 4, 5].map fun line => ⟨"Area", "procedure", (area line).decl, {}⟩
  relations := [⟨area 3, area 1, "overrides", 0, none⟩, ⟨area 3, area 4, "renames", 0, none⟩,
    ⟨area 2, area 5, "overrides", 0, none⟩]

/-- The store with these procedures, in the order of their lines. -/
def shapesStore : Store := Store.fresh.replaceUnit Path.normalize shapes

/-- A question with a cycle and a failure: 1 is answered by 2, 2 by itself and 1, and 4 fails. -/
def paired (id : Int) : Except Failure (List Entity) :=
  if id = 1 then .ok [Entity.ofId 2]
  else if id = 2 then .ok [Entity.ofId 2, Entity.ofId 1]
  else if id = 4 then .error (Failure.of .database "no answer")
  else .ok []

/-- The walker of that question over the store. -/
def shapesWalker (flags : ClosureFlags) : Walker Entity :=
  ⟨[1, 2, 3, 4, 5], paired, shapesStore.neighbours flags⟩

/-- What the closure of that question visits. -/
def shapesVisited (flags : ClosureFlags) : List Int :=
  (collectAll (shapesWalker flags) (start (shapesWalker flags) (Entity.ofId 1))).2.visited

theorem shapes_closed : shapesStore.ClosedUnder .all paired (Entity.ofId 1) fun id => id ∈ [1, 2, 3, 4, 5] := by
  have haround : ∀ id ∈ ([1, 2, 3, 4, 5] : List Int), ∀ e ∈ (shapesWalker .all).around id, e.isNone = false →
      e.id ∈ ([1, 2, 3, 4, 5] : List Int) := by decide +kernel
  have hanswers : ∀ id ∈ ([1, 2, 3, 4, 5] : List Int), ∀ a ∈ (shapesWalker .all).answers id,
      (ClosureElement.target a).id ∈ ([1, 2, 3, 4, 5] : List Int) := by decide +kernel
  refine Walker.closed_iff.1 (?_ : (shapesWalker .all).Closed _ _)
  exact ⟨fun _ => by decide, fun id hid a ha _ => hanswers id hid a ha, haround⟩

end Sample

open Sample in
/-- Which flags are set shows in what is visited: 3 overrides 1, 5 is overridden by 2, and 3 renames 4, on which the
question fails. -/
theorem shapes_exact :
    (collectAll (shapesWalker .all) (start (shapesWalker .all) (Entity.ofId 1))).1 = [Entity.ofId 2, Entity.ofId 1] ∧
      shapesVisited .all = [1, 2, 3, 4, 5] ∧ shapesVisited {} = [1, 2] ∧
      shapesVisited { fromOverriding := true } = [1, 2, 3] ∧ shapesVisited { fromOverridden := true } = [1, 2, 5] ∧
      shapesVisited { fromOverriding := true, fromRenames := true } = [1, 2, 3, 4] ∧
      ∃ log, Exact shapesStore .all (shapesWalker .all) (Entity.ofId 1) log
        (collectAll (shapesWalker .all) (start (shapesWalker .all) (Entity.ofId 1))).1
        (collectAll (shapesWalker .all) (start (shapesWalker .all) (Entity.ofId 1))).2 :=
  ⟨by decide +kernel, by decide +kernel, by decide +kernel, by decide +kernel, by decide +kernel, by decide +kernel,
    closure_exact shapesStore (Entity.ofId 1) .all paired [1, 2, 3, 4, 5] ⟨_, shapes_closed, fun _ h => h⟩⟩

end Closure

end CrossIndex
