/-
Normal forms of paths. The names of a normal form can be cut out of its text again, and taking them in
once more gives the same stack, so a normal form is its own normal form. What a spelling contributes
to the normal form can be read off its components, so spellings with the same components have one
normal form.
-/
import CrossIndex.Path.Component
import Mathlib.Data.List.Basic

namespace CrossIndex.Path

/-- Spellings of a path with the same components are stored as the same text. -/
def Uniform (canon : String → String) : Prop :=
  ∀ p q, same p q = true → canon p = canon q

/-- Paths are stored as normal forms. -/
def Normalizing (canon : String → String) : Prop :=
  ∀ path, normalize (canon path) = canon path

/-! ## Cutting and joining -/

theorem segments_ne_nil (cs : List Char) : segments cs ≠ [] := by
  cases cs with
  | nil => simp [segments]
  | cons c cs =>
    unfold segments
    split
    · simp
    · split <;> simp

theorem segments_cons {c : Char} (hc : c ≠ '/') {cs : List Char} {name : Name} {names : List Name}
    (h : segments cs = name :: names) : segments (c :: cs) = (c :: name) :: names := by
  rw [segments, if_neg hc, h]

theorem segments_slash (cs : List Char) : segments ('/' :: cs) = [] :: segments cs := by
  rw [segments, if_pos rfl]

/-- A name without slashes is cut off as a whole. -/
theorem segments_append_slash {n : Name} (hn : '/' ∉ n) (cs : List Char) :
    segments (n ++ '/' :: cs) = n :: segments cs := by
  induction n with
  | nil => exact segments_slash cs
  | cons c n ih =>
    rw [List.mem_cons, not_or] at hn
    exact segments_cons (Ne.symm hn.1) (ih hn.2)

theorem segments_name {n : Name} (hn : '/' ∉ n) : segments n = [n] := by
  induction n with
  | nil => rfl
  | cons c n ih =>
    rw [List.mem_cons, not_or] at hn
    exact segments_cons (Ne.symm hn.1) (ih hn.2)

theorem segments_joined : ∀ {names : List Name}, names ≠ [] → (∀ n ∈ names, '/' ∉ n) → segments (joined names) = names
  | [], h, _ => absurd rfl h
  | [n], _, hn => segments_name (hn n (by simp))
  | n :: m :: names, _, hn => by
    rw [joined, segments_append_slash (hn n (by simp)), segments_joined (by simp) fun x hx => hn x (by simp [hx])]

theorem mem_segments {cs : List Char} {n : Name} (h : n ∈ segments cs) {c : Char} (hc : c ∈ n) : c ∈ cs ∧ c ≠ '/' := by
  induction cs generalizing n with
  | nil =>
    simp only [segments, List.mem_singleton] at h
    subst h
    cases hc
  | cons d cs ih =>
    obtain ⟨m, ms, hm⟩ := List.exists_cons_of_ne_nil (segments_ne_nil cs)
    by_cases hd : d = '/'
    · subst hd
      rw [segments_slash] at h
      rcases List.mem_cons.1 h with rfl | h
      · cases hc
      · exact ⟨List.mem_cons_of_mem _ (ih h hc).1, (ih h hc).2⟩
    · rw [segments_cons hd hm] at h
      rcases List.mem_cons.1 h with rfl | h
      · rcases List.mem_cons.1 hc with rfl | hc
        · exact ⟨List.mem_cons_self, hd⟩
        · have := ih (by rw [hm]; exact List.mem_cons_self) hc
          exact ⟨List.mem_cons_of_mem _ this.1, this.2⟩
      · have := ih (by rw [hm]; exact List.mem_cons_of_mem _ h) hc
        exact ⟨List.mem_cons_of_mem _ this.1, this.2⟩

/-- The names of a text without backslashes are free of separators. -/
theorem notMem_segments {cs : List Char} (h : '\\' ∉ cs) : ∀ n ∈ segments cs, '/' ∉ n ∧ '\\' ∉ n :=
  fun _ hn => ⟨fun hc => (mem_segments hn hc).2 rfl, fun hc => h (mem_segments hn hc).1⟩

theorem isAbsolute_iff {cs : List Char} : isAbsolute cs = true ↔ ∃ rest, cs = '/' :: rest := by
  simp [isAbsolute, List.head?_eq_some_iff]

theorem mem_joined : ∀ {names : List Name} {c : Char}, c ∈ joined names → c = '/' ∨ ∃ n ∈ names, c ∈ n
  | [], c, h => by cases h
  | [n], c, h => .inr ⟨n, by simp, h⟩
  | n :: m :: names, c, h => by
    rw [joined, List.mem_append, List.mem_cons] at h
    rcases h with h | h | h
    · exact .inr ⟨n, by simp, h⟩
    · exact .inl h
    · rcases mem_joined h with h | ⟨x, hx, hc⟩
      · exact .inl h
      · exact .inr ⟨x, List.mem_cons_of_mem _ hx, hc⟩

theorem notMem_slashed (cs : List Char) : '\\' ∉ slashed cs := by
  unfold slashed
  rw [List.mem_map]
  rintro ⟨c, -, h⟩
  split at h
  · exact absurd h (by decide)
  · contradiction

theorem slashed_eq {cs : List Char} (h : '\\' ∉ cs) : slashed cs = cs := by
  unfold slashed
  conv_rhs => rw [← List.map_id cs]
  apply List.map_congr_left
  intro c hc
  have : c ≠ '\\' := fun e => h (e ▸ hc)
  simp [this]

/-! ## Normal stacks -/

/-- A name that a normal form may hold. -/
structure Plain (n : Name) : Prop where
  nonempty : n ≠ []
  notHere : n ≠ here
  noSlash : '/' ∉ n
  noBackslash : '\\' ∉ n

/-- The stacks that are held while a normal form is built: a `..` occurs in relative paths only and has
nothing but `..` below it. -/
def IsNormal (absolute : Bool) : List Name → Prop
  | [] => True
  | n :: rest => Plain n ∧ (n = up → absolute = false ∧ ∀ m ∈ rest, m = up) ∧ IsNormal absolute rest

theorem IsNormal.plain {absolute : Bool} : ∀ {stack : List Name}, IsNormal absolute stack → ∀ n ∈ stack, Plain n
  | _ :: _, h, n, hn => by
    rcases List.mem_cons.1 hn with rfl | hn
    · exact h.1
    · exact h.2.2.plain n hn

theorem push_isNormal {absolute : Bool} {stack : List Name} (h : IsNormal absolute stack) {n : Name} (h1 : '/' ∉ n)
    (h2 : '\\' ∉ n) : IsNormal absolute (push absolute stack n) := by
  unfold push
  split
  · exact h
  · rename_i hskip
    rw [not_or] at hskip
    have hplain : Plain n := ⟨hskip.1, hskip.2, h1, h2⟩
    split
    · rename_i hup
      subst hup
      split
      · split
        · trivial
        · rename_i habs
          exact ⟨hplain, fun _ => ⟨by simpa using habs, fun _ h => by cases h⟩, trivial⟩
      · rename_i top rest
        split
        · rename_i htop
          obtain ⟨habs, hrest⟩ := h.2.1 htop
          rw [habs]
          refine ⟨hplain, fun _ => ⟨rfl, fun m hm => ?_⟩, habs ▸ h⟩
          rcases List.mem_cons.1 hm with rfl | hm
          · exact htop
          · exact hrest m hm
        · exact h.2.2
    · rename_i hup
      exact ⟨hplain, fun e => absurd e hup, h⟩

/-- Taking in the names of a normal stack, outermost first, builds the stack. -/
theorem foldl_push_reverse {absolute : Bool} : ∀ {stack : List Name}, IsNormal absolute stack →
    stack.reverse.foldl (push absolute) [] = stack
  | [], _ => rfl
  | n :: rest, ⟨hn, hup, hrest⟩ => by
    rw [List.reverse_cons, List.foldl_append, foldl_push_reverse hrest, List.foldl_cons, List.foldl_nil]
    unfold push
    rw [if_neg (by simp [hn.nonempty, hn.notHere])]
    split
    · rename_i he
      obtain ⟨habs, hall⟩ := hup he
      cases rest with
      | nil => simp [habs, he]
      | cons top rest => simp [habs, he, hall top List.mem_cons_self]
    · rfl

theorem foldl_push_isNormal {absolute : Bool} : ∀ {names stack : List Name}, IsNormal absolute stack →
    (∀ n ∈ names, '/' ∉ n ∧ '\\' ∉ n) → IsNormal absolute (names.foldl (push absolute) stack)
  | [], _, h, _ => h
  | n :: names, stack, h, hn => by
    obtain ⟨h1, h2⟩ := hn n List.mem_cons_self
    rw [List.foldl_cons]
    exact foldl_push_isNormal (push_isNormal h h1 h2) fun m hm => hn m (List.mem_cons_of_mem _ hm)

/-- The stack of the normal form of a path, innermost name first. -/
def stackOf (cs : List Char) : List Name :=
  (segments cs).foldl (push (isAbsolute cs)) []

theorem stackOf_isNormal {cs : List Char} (h : '\\' ∉ cs) : IsNormal (isAbsolute cs) (stackOf cs) :=
  foldl_push_isNormal trivial (notMem_segments h)

/-! ## A normal form is its own normal form -/

theorem push_nil (absolute : Bool) (stack : List Name) : push absolute stack [] = stack := by
  simp [push]

/-- The text that a normal stack spells leads to the stack again. -/
theorem foldl_push_segments_joined {absolute : Bool} {stack : List Name} (h : IsNormal absolute stack) :
    (segments (joined stack.reverse)).foldl (push absolute) [] = stack := by
  by_cases hs : stack = []
  · subst hs
    rfl
  · rw [segments_joined (by simpa using hs) fun n hn => (h.plain n (List.mem_reverse.1 hn)).noSlash]
    exact foldl_push_reverse h

theorem isAbsolute_joined {absolute : Bool} {stack : List Name} (h : IsNormal absolute stack) :
    isAbsolute (joined stack.reverse) = false := by
  rcases hs : stack.reverse with _ | ⟨n, names⟩
  · rfl
  · have hn := h.plain n (by rw [← List.mem_reverse, hs]; exact List.mem_cons_self)
    obtain ⟨c, cs, rfl⟩ := List.exists_cons_of_ne_nil hn.nonempty
    have hc : c ≠ '/' := fun e => hn.noSlash (by rw [e]; exact List.mem_cons_self)
    cases names <;> simp [isAbsolute, joined, hc]

/-- The text that a stack of names spells, at the root or not. -/
def spelled (absolute : Bool) (stack : List Name) : List Char :=
  if absolute then '/' :: joined stack.reverse else joined stack.reverse

theorem isAbsolute_spelled {absolute : Bool} {stack : List Name} (h : IsNormal absolute stack) :
    isAbsolute (spelled absolute stack) = absolute := by
  cases absolute with
  | false => exact isAbsolute_joined h
  | true => rfl

theorem stackOf_spelled {absolute : Bool} {stack : List Name} (h : IsNormal absolute stack) :
    stackOf (spelled absolute stack) = stack := by
  rw [stackOf, isAbsolute_spelled h]
  cases absolute with
  | false => exact foldl_push_segments_joined h
  | true =>
    rw [spelled, if_pos rfl, segments_slash, List.foldl_cons, push_nil]
    exact foldl_push_segments_joined h

theorem notMem_spelled {absolute : Bool} {stack : List Name} (h : IsNormal absolute stack) :
    '\\' ∉ spelled absolute stack := by
  intro hmem
  have hj : '\\' ∈ joined stack.reverse := by
    unfold spelled at hmem
    split at hmem
    · simpa using hmem
    · exact hmem
  rcases mem_joined hj with h' | ⟨n, hn, hc⟩
  · exact absurd h' (by decide)
  · exact (h.plain n (List.mem_reverse.1 hn)).noBackslash hc

theorem normalChars_eq (cs : List Char) :
    normalChars cs = if isAbsolute (slashed cs) then '/' :: joined (stackOf (slashed cs)).reverse
      else joined (stackOf (slashed cs)).reverse :=
  rfl

theorem normalChars_eq_spelled (cs : List Char) :
    normalChars cs = spelled (isAbsolute (slashed cs)) (stackOf (slashed cs)) :=
  rfl

/-- What a normal stack spells is its own normal form. -/
theorem normalChars_spelled {absolute : Bool} {stack : List Name} (h : IsNormal absolute stack) :
    normalChars (spelled absolute stack) = spelled absolute stack := by
  rw [normalChars_eq_spelled, slashed_eq (notMem_spelled h), isAbsolute_spelled h, stackOf_spelled h]

theorem normalChars_normalChars (cs : List Char) : normalChars (normalChars cs) = normalChars cs :=
  normalChars_spelled (stackOf_isNormal (notMem_slashed cs))

/-- A normal form is its own normal form. -/
theorem normalize_normalize (path : String) : normalize (normalize path) = normalize path := by
  unfold normalize
  rw [String.toList_ofList, normalChars_normalChars]

theorem normalize_normalizing : Normalizing normalize :=
  normalize_normalize

/-! ## A normal form has no empty names -/

theorem nil_mem_tail_segments (front rest : List Char) : [] ∈ (segments (front ++ '/' :: '/' :: rest)).tail := by
  induction front with
  | nil =>
    rw [List.nil_append, segments_slash, segments_slash]
    exact List.mem_cons_self
  | cons c front ih =>
    rw [List.cons_append]
    by_cases hc : c = '/'
    · rw [hc, segments_slash]
      exact List.mem_of_mem_tail ih
    · obtain ⟨m, ms, hm⟩ := List.exists_cons_of_ne_nil (segments_ne_nil (front ++ '/' :: '/' :: rest))
      rw [hm] at ih
      rw [segments_cons hc hm]
      exact ih

/-- In a normal form no two slashes stand next to each other. -/
theorem normalChars_ne_append (cs front rest : List Char) : normalChars cs ≠ front ++ '/' :: '/' :: rest := by
  have hnormal := stackOf_isNormal (notMem_slashed cs)
  have hplain : ∀ n ∈ (stackOf (slashed cs)).reverse, Plain n := fun n hn => hnormal.plain n (List.mem_reverse.1 hn)
  have hjoined : ∀ front, joined (stackOf (slashed cs)).reverse ≠ front ++ '/' :: '/' :: rest := by
    intro front h
    by_cases hnil : (stackOf (slashed cs)).reverse = []
    · rw [hnil] at h
      exact List.append_ne_nil_of_right_ne_nil front (List.cons_ne_nil _ _) h.symm
    · have hmem := List.mem_of_mem_tail (nil_mem_tail_segments front rest)
      rw [← h, segments_joined hnil fun n hn => (hplain n hn).noSlash] at hmem
      exact (hplain [] hmem).nonempty rfl
  intro h
  rw [normalChars_eq] at h
  split at h
  · cases front with
    | nil =>
      have hslash := isAbsolute_joined hnormal
      rw [(List.cons.inj h).2] at hslash
      exact absurd hslash (by simp [isAbsolute])
    | cons c front => exact hjoined front (List.cons.inj h).2
  · exact hjoined front h

/-! ## Spellings with the same components -/

/-- The names that a component contributes to a normal form: a backslash cuts a name in two. -/
def namesOf : Component → List Name
  | .name n => segments (slashed n)
  | .parent => [up]
  | _ => []

/-- Whether components, backslashes counted as slashes, start at the root. -/
def startsAtRoot : List Component → Bool
  | .root :: _ => true
  | .name n :: _ => n.head? == some '\\'
  | _ => false

theorem slashed_cons (c : Char) (cs : List Char) : slashed (c :: cs) = (if c = '\\' then '/' else c) :: slashed cs :=
  rfl

/-- Cutting at slashes and backslashes is cutting at slashes first. -/
theorem segments_slashed (cs : List Char) :
    segments (slashed cs) = (segments cs).flatMap fun n => segments (slashed n) := by
  induction cs with
  | nil => rfl
  | cons c cs ih =>
    obtain ⟨m, ms, hm⟩ := List.exists_cons_of_ne_nil (segments_ne_nil cs)
    by_cases hc : c = '/'
    · subst hc
      rw [segments_slash, List.flatMap_cons, ← ih]
      exact segments_slash _
    · rw [hm, List.flatMap_cons] at ih
      rw [segments_cons hc hm, List.flatMap_cons, slashed_cons, slashed_cons]
      by_cases hb : c = '\\'
      · rw [if_pos hb, segments_slash, segments_slash, ih]
        rfl
      · obtain ⟨n, ns, hn⟩ := List.exists_cons_of_ne_nil (segments_ne_nil (slashed m))
        rw [hn] at ih
        rw [if_neg hb, segments_cons hc ih, segments_cons hc hn]
        rfl

theorem foldl_push_namesOf (absolute : Bool) (stack : List Name) (n : Name) :
    (segments (slashed n)).foldl (push absolute) stack =
      ((Component.ofName? n).toList.flatMap namesOf).foldl (push absolute) stack := by
  unfold Component.ofName?
  split
  · rename_i h
    rcases h with rfl | rfl <;> simp [segments, slashed, here, push]
  · split
    · rename_i h
      subst h
      rfl
    · simp [namesOf]

theorem foldl_push_components (absolute : Bool) : ∀ (names stack : List Name),
    (names.flatMap fun n => segments (slashed n)).foldl (push absolute) stack =
      ((names.filterMap Component.ofName?).flatMap namesOf).foldl (push absolute) stack
  | [], _ => rfl
  | n :: names, stack => by
    have hsplit : (n :: names).filterMap Component.ofName? =
        (Component.ofName? n).toList ++ names.filterMap Component.ofName? := by
      rw [List.filterMap_cons]
      cases Component.ofName? n <;> rfl
    rw [hsplit, List.flatMap_cons, List.flatMap_append, List.foldl_append, List.foldl_append, foldl_push_namesOf,
      foldl_push_components]

theorem namesOf_start (cs : List Char) : (start cs).flatMap namesOf = [] := by
  unfold start
  split
  · rfl
  · split <;> rfl

theorem isAbsolute_slashed (cs : List Char) :
    isAbsolute (slashed cs) = startsAtRoot (start cs ++ (segments cs).filterMap Component.ofName?) := by
  cases cs with
  | nil => rfl
  | cons c cs =>
    obtain ⟨m, ms, hm⟩ := List.exists_cons_of_ne_nil (segments_ne_nil cs)
    by_cases hc : c = '/'
    · subst hc
      rfl
    · have hstart : isAbsolute (c :: cs) = false := by simp [isAbsolute, hc]
      rw [start, hstart, segments_cons hc hm, slashed_cons]
      by_cases hhere : c :: m = here
      · obtain ⟨rfl, rfl⟩ := List.cons.inj hhere
        rfl
      · by_cases hup : c :: m = up
        · obtain ⟨rfl, rfl⟩ := List.cons.inj hup
          rfl
        · have hname : Component.ofName? (c :: m) = some (.name (c :: m)) := by
            unfold Component.ofName?
            rw [if_neg (by simp [hhere]), if_neg hup]
          rw [List.filterMap_cons_some hname]
          by_cases hb : c = '\\'
          · subst hb
            simp [isAbsolute, startsAtRoot, hhere]
          · simp [isAbsolute, startsAtRoot, hhere, hb, hc]

/-- A path and a spelling of it with the same components have the same normal form. -/
theorem normalize_uniform : Uniform normalize := by
  have hread : ∀ p : String, normalChars p.toList =
      if startsAtRoot (components p) then
        '/' :: joined (((components p).flatMap namesOf).foldl (push (startsAtRoot (components p))) []).reverse
      else joined (((components p).flatMap namesOf).foldl (push (startsAtRoot (components p))) []).reverse := by
    intro p
    have habs : isAbsolute (slashed p.toList) = startsAtRoot (components p) := isAbsolute_slashed p.toList
    have hstack : stackOf (slashed p.toList) =
        ((components p).flatMap namesOf).foldl (push (startsAtRoot (components p))) [] := by
      rw [stackOf, habs, segments_slashed, foldl_push_components, components, List.flatMap_append, namesOf_start]
      rfl
    rw [normalChars_eq, habs, hstack]
  intro p q h
  have hcomp : components p = components q := by simpa [same] using h
  unfold normalize
  rw [hread p, hread q, hcomp]

end CrossIndex.Path
