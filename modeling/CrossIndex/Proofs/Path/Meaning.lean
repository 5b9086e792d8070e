/-
What normal forms mean. A normal form is written with names that each do something: it leaves some of the directories
that it starts from and then enters others. It leads wherever the path leads that it was made of. Two normal forms that
lead to the same place from every base are the same text: a base of directories of one name, which neither enters,
shows whether they start at the root, how many directories they leave and which they enter. Main statement: two paths
have the same normal form exactly if they lead to the same place from every base.
-/
import CrossIndex.Path.Meaning
import CrossIndex.Proofs.Path.Normal

namespace CrossIndex.Path

/-! ## Definitions -/

/-- The names of a text that is cut at every slash; an empty text has none. -/
def cut (cs : List Char) : List Name :=
  if cs = [] then [] else segments cs

/-- The names that a path text is written with, behind the slash of the root if there is one. -/
def written (cs : List Char) : List Name :=
  if isAbsolute cs then cut cs.tail else cut cs

/-- A path text in which every name does something: a `..` has nothing before it that it could remove, and does not
stand at the root, where it would do nothing. -/
structure IsNormalForm (cs : List Char) : Prop where
  noBackslash : '\\' ∉ cs
  named : ∀ n ∈ written cs, n ≠ [] ∧ n ≠ here
  unresolved : ∀ front back, written cs = front ++ up :: back → isAbsolute cs = false ∧ ∀ n ∈ front, n = up

/-- A stack of directories, each under a name that can be entered. -/
def AreDirectories (base : List Name) : Prop :=
  ∀ n ∈ base, Plain n ∧ n ≠ up

variable {absolute : Bool} {stack names : List Name}

/-! ## The names that a text is written with -/

theorem joined_segments : ∀ cs : List Char, joined (segments cs) = cs
  | [] => rfl
  | c :: cs => by
    obtain ⟨n, ns, hn⟩ := List.exists_cons_of_ne_nil (segments_ne_nil cs)
    have ih := joined_segments cs
    by_cases hc : c = '/'
    · subst hc
      rw [segments_slash, hn, joined, ← hn, ih, List.nil_append]
    · rw [segments_cons hc hn]
      rw [hn] at ih
      cases ns <;> simpa [joined] using ih

theorem joined_cut (cs : List Char) : joined (cut cs) = cs := by
  unfold cut
  split
  · rename_i hnil
    rw [hnil]
    rfl
  · exact joined_segments cs

theorem cut_joined (h : ∀ n ∈ names, Plain n) : cut (joined names) = names := by
  cases names with
  | nil => rfl
  | cons n names =>
    have hne : joined (n :: names) ≠ [] := by
      have hn := (h n List.mem_cons_self).nonempty
      cases names <;> simp [joined, hn]
    rw [cut, if_neg hne, segments_joined (List.cons_ne_nil n names) fun m hm => (h m hm).noSlash]

theorem mem_cut {cs : List Char} {n : Name} (hn : n ∈ cut cs) {c : Char} (hc : c ∈ n) : c ∈ cs ∧ c ≠ '/' := by
  unfold cut at hn
  split at hn
  · cases hn
  · exact mem_segments hn hc

theorem mem_written {cs : List Char} {n : Name} (hn : n ∈ written cs) {c : Char} (hc : c ∈ n) : c ∈ cs ∧ c ≠ '/' := by
  unfold written at hn
  split at hn
  · exact ⟨List.mem_of_mem_tail (mem_cut hn hc).1, (mem_cut hn hc).2⟩
  · exact mem_cut hn hc

theorem written_spelled (h : IsNormal absolute stack) : written (spelled absolute stack) = stack.reverse := by
  have hcut := cut_joined fun n hn => h.plain n (List.mem_reverse.1 hn)
  rw [written, isAbsolute_spelled h]
  cases absolute <;> exact hcut

/-- A text is spelled by the names that it is written with. -/
theorem spelled_written (cs : List Char) : spelled (isAbsolute cs) (written cs).reverse = cs := by
  rw [spelled, List.reverse_reverse, written]
  split
  · rename_i ha
    obtain ⟨rest, rfl⟩ := isAbsolute_iff.1 ha
    rw [joined_cut, List.tail_cons]
  · exact joined_cut cs

/-! ## Normal forms are what normal stacks spell -/

theorem isNormal_iff : ∀ {stack : List Name}, IsNormal absolute stack ↔ (∀ n ∈ stack, Plain n) ∧
    ∀ above below, stack = above ++ up :: below → absolute = false ∧ ∀ n ∈ below, n = up
  | [] => by simp [IsNormal]
  | n :: rest => by
    have ih : IsNormal absolute rest ↔ _ := isNormal_iff
    rw [IsNormal, ih, List.forall_mem_cons]
    constructor
    · rintro ⟨hn, hup, hrest, hbelow⟩
      refine ⟨⟨hn, hrest⟩, fun above below h => ?_⟩
      cases above with
      | nil =>
        obtain ⟨rfl, rfl⟩ := List.cons.inj h
        exact hup rfl
      | cons _ above => exact hbelow above below (List.cons.inj h).2
    · rintro ⟨⟨hn, hrest⟩, hbelow⟩
      refine ⟨hn, fun h => hbelow [] rest (by rw [h]; rfl), hrest, fun above below h => ?_⟩
      exact hbelow (n :: above) below (by rw [h]; rfl)

theorem isNormalForm_iff {cs : List Char} :
    IsNormalForm cs ↔ IsNormal (isAbsolute cs) (written cs).reverse ∧ '\\' ∉ cs := by
  rw [isNormal_iff]
  constructor
  · intro h
    refine ⟨⟨fun n hn => ?_, fun above below hsplit => ?_⟩, h.noBackslash⟩
    · have hn := List.mem_reverse.1 hn
      exact ⟨(h.named n hn).1, (h.named n hn).2, fun hc => (mem_written hn hc).2 rfl,
        fun hc => h.noBackslash (mem_written hn hc).1⟩
    · have hwritten : written cs = below.reverse ++ up :: above.reverse := by
        rw [← List.reverse_reverse (written cs), hsplit]
        simp
      obtain ⟨habs, hall⟩ := h.unresolved _ _ hwritten
      exact ⟨habs, fun n hn => hall n (List.mem_reverse.2 hn)⟩
  · rintro ⟨⟨hplain, hbelow⟩, hback⟩
    refine ⟨hback, fun n hn => ?_, fun front back hsplit => ?_⟩
    · have := hplain n (List.mem_reverse.2 hn)
      exact ⟨this.nonempty, this.notHere⟩
    · have hstack : (written cs).reverse = back.reverse ++ up :: front.reverse := by
        rw [hsplit]
        simp
      obtain ⟨habs, hall⟩ := hbelow _ _ hstack
      exact ⟨habs, fun n hn => hall n (List.mem_reverse.2 hn)⟩

theorem spelled_isNormalForm (h : IsNormal absolute stack) : IsNormalForm (spelled absolute stack) := by
  rw [isNormalForm_iff, isAbsolute_spelled h, written_spelled h, List.reverse_reverse]
  exact ⟨h, notMem_spelled h⟩

/-- The texts that normalisation leaves as they are. -/
theorem normalChars_eq_self_iff {cs : List Char} : normalChars cs = cs ↔ IsNormalForm cs := by
  constructor
  · intro h
    rw [← h, normalChars_eq_spelled]
    exact spelled_isNormalForm (stackOf_isNormal (notMem_slashed cs))
  · intro h
    have hfixed := normalChars_spelled (isNormalForm_iff.1 h).1
    rwa [spelled_written] at hfixed

/-! ## Normalisation keeps the meaning -/

/-- Taking a name into a normal stack is the same as walking it once the stack has been walked. -/
theorem foldl_step_push (h : IsNormal absolute stack) {base : List Name} (hbase : absolute = true → base = [])
    (n : Name) : (push absolute stack n).reverse.foldl step base = step (stack.reverse.foldl step base) n := by
  have hsnoc : ∀ (m : Name) (rest : List Name), (m :: rest).reverse.foldl step base =
      step (rest.reverse.foldl step base) m := by
    intro m rest
    rw [List.reverse_cons, List.foldl_append, List.foldl_cons, List.foldl_nil]
  unfold push
  split
  · rename_i hskip
    rw [step, if_pos hskip]
  · rename_i hskip
    split
    · rename_i hup
      subst hup
      cases stack with
      | nil =>
        cases absolute with
        | false => rfl
        | true =>
          rw [hbase rfl]
          rfl
      | cons top rest =>
        dsimp only
        split
        · rename_i htop
          rw [(h.2.1 htop).1, if_neg Bool.false_ne_true, hsnoc up]
        · rename_i htop
          -- the name that is removed is the one that was entered last
          rw [hsnoc top, step.eq_def _ top, if_neg (by simp [h.1.nonempty, h.1.notHere]), if_neg htop]
          rfl
    · exact hsnoc n stack

theorem foldl_step_stack {base : List Name} (hbase : absolute = true → base = []) : ∀ {names stack : List Name},
    IsNormal absolute stack → (∀ n ∈ names, '/' ∉ n ∧ '\\' ∉ n) →
    (names.foldl (push absolute) stack).reverse.foldl step base = names.foldl step (stack.reverse.foldl step base)
  | [], _, _, _ => rfl
  | n :: names, stack, h, hn => by
    obtain ⟨h1, h2⟩ := hn n List.mem_cons_self
    rw [List.foldl_cons, List.foldl_cons, ← foldl_step_push h hbase n]
    exact foldl_step_stack hbase (push_isNormal h h1 h2) fun m hm => hn m (List.mem_cons_of_mem _ hm)

/-- A path leads where its normal stack leads. -/
theorem walk_eq (base : List Name) (path : String) :
    walk base path = (stackOf (slashed path.toList)).reverse.foldl step
      (if isAbsolute (slashed path.toList) then [] else base) := by
  have hstart : isAbsolute (slashed path.toList) = true →
      (if isAbsolute (slashed path.toList) then [] else base) = [] := fun h => if_pos h
  exact (@foldl_step_stack _ _ hstart _ [] trivial (notMem_segments (notMem_slashed _))).symm

theorem walk_normalize (base : List Name) (path : String) : walk base (normalize path) = walk base path := by
  have hnormal := stackOf_isNormal (notMem_slashed path.toList)
  have hchars : (normalize path).toList =
      spelled (isAbsolute (slashed path.toList)) (stackOf (slashed path.toList)) := by
    rw [normalize, String.toList_ofList, normalChars_eq_spelled]
  rw [walk_eq base (normalize path), hchars, slashed_eq (notMem_spelled hnormal), isAbsolute_spelled hnormal,
    stackOf_spelled hnormal, ← walk_eq]

/-! ## Different normal forms lead to different places -/

/-- A normal stack leaves some directories, none if it starts at the root, and enters others. -/
theorem IsNormal.exists_replicate : ∀ {stack : List Name}, IsNormal absolute stack →
    ∃ names k, stack = names ++ List.replicate k up ∧ AreDirectories names ∧ (absolute = true → k = 0)
  | [], _ => ⟨[], 0, rfl, fun _ h => (by cases h), fun _ => rfl⟩
  | n :: rest, ⟨hn, hup, hrest⟩ => by
    by_cases he : n = up
    · obtain ⟨habs, hall⟩ := hup he
      refine ⟨[], rest.length + 1, ?_, fun _ h => (by cases h), fun h => ?_⟩
      · rw [he, List.nil_append, List.replicate_succ, ← List.eq_replicate_iff.2 ⟨rfl, hall⟩]
      · rw [habs] at h
        cases h
    · obtain ⟨names, k, rfl, hnames, hk⟩ := hrest.exists_replicate
      exact ⟨n :: names, k, rfl, List.forall_mem_cons.2 ⟨⟨hn, he⟩, hnames⟩, hk⟩

theorem foldl_step_directories (h : AreDirectories names) (base : List Name) :
    names.reverse.foldl step base = names ++ base := by
  induction names with
  | nil => rfl
  | cons n names ih =>
    obtain ⟨⟨hn, hup⟩, hnames⟩ := List.forall_mem_cons.1 h
    rw [List.reverse_cons, List.foldl_append, ih hnames, List.foldl_cons, List.foldl_nil, step,
      if_neg (by simp [hn.nonempty, hn.notHere]), if_neg hup, List.cons_append]

theorem foldl_step_up : ∀ (k : Nat) (base : List Name), (List.replicate k up).foldl step base = base.drop k
  | 0, _ => rfl
  | k + 1, base => by
    rw [List.replicate_succ, List.foldl_cons, foldl_step_up k]
    show (base.tail).drop k = base.drop (k + 1)
    rw [List.drop_tail]

theorem foldl_step_append (h : AreDirectories names) (k : Nat) (base : List Name) :
    (names ++ List.replicate k up).reverse.foldl step base = names ++ base.drop k := by
  rw [List.reverse_append, List.reverse_replicate, List.foldl_append, foldl_step_up, foldl_step_directories h]

/-- There is always one more name that can be entered. -/
theorem exists_directory_notMem (names : List Name) : ∃ n, Plain n ∧ n ≠ up ∧ n ∉ names := by
  refine ⟨List.replicate (names.flatten.length + 1) 'a', ⟨by simp, ?_, ?_, ?_⟩, ?_, fun h => ?_⟩
  · exact fun h => absurd (h ▸ List.mem_replicate.2 ⟨Nat.succ_ne_zero _, rfl⟩ : 'a' ∈ here) (by decide)
  · simp
  · simp
  · exact fun h => absurd (h ▸ List.mem_replicate.2 ⟨Nat.succ_ne_zero _, rfl⟩ : 'a' ∈ up) (by decide)
  · have hle := (List.sublist_flatten_of_mem h).length_le
    rw [List.length_replicate] at hle
    omega

/-- Normal stacks that lead to the same place from every stack of directories are the same. -/
theorem eq_of_leads {absolute' : Bool} {stack' : List Name} (h : IsNormal absolute stack)
    (h' : IsNormal absolute' stack') (hleads : ∀ base, AreDirectories base →
      stack.reverse.foldl step (if absolute then [] else base) =
        stack'.reverse.foldl step (if absolute' then [] else base)) : absolute = absolute' ∧ stack = stack' := by
  obtain ⟨names, k, rfl, hnames, hk⟩ := h.exists_replicate
  obtain ⟨names', k', rfl, hnames', hk'⟩ := h'.exists_replicate
  obtain ⟨n, hn, hup, hnew⟩ := exists_directory_notMem (names ++ names')
  rw [List.mem_append, not_or] at hnew
  -- more directories of that name than are left on either way, so some stay on a way that does not start at the root
  have hsame := hleads (List.replicate (max k k' + 1) n) fun m hm => (List.mem_replicate.1 hm).2 ▸ ⟨hn, hup⟩
  rw [foldl_step_append hnames, foldl_step_append hnames'] at hsame
  have hcount := congrArg (List.count n) hsame
  simp only [List.count_append, List.count_eq_zero_of_not_mem hnew.1, List.count_eq_zero_of_not_mem hnew.2,
    Nat.zero_add] at hcount
  cases absolute <;> cases absolute' <;>
    simp only [Bool.false_eq_true, if_true, if_false, List.drop_nil, List.drop_replicate, List.count_nil,
      List.count_replicate_self] at hcount hsame
  · obtain rfl : k = k' := by omega
    exact ⟨rfl, by rw [List.append_cancel_right hsame]⟩
  · omega
  · omega
  · rw [hk rfl, hk' rfl, List.append_cancel_right hsame]
    exact ⟨rfl, rfl⟩

theorem normalize_eq_of_walk {p q : String} (h : ∀ base, AreDirectories base → walk base p = walk base q) :
    normalize p = normalize q := by
  obtain ⟨habs, hstack⟩ := eq_of_leads (stackOf_isNormal (notMem_slashed p.toList))
    (stackOf_isNormal (notMem_slashed q.toList)) fun base hbase => by rw [← walk_eq, ← walk_eq, h base hbase]
  rw [normalize, normalize, normalChars_eq_spelled, normalChars_eq_spelled, habs, hstack]

/-- A path and its normal form lead to the same place from every base. A normal form has no backslash and no name that
does nothing, and is its own normal form. Two paths have the same normal form exactly if they lead to the same place
from every base, and it is enough that they do from every stack of directories; spellings with the same components
do. -/
theorem normalize_characterizes (p q : String) :
    (∀ base, walk base (normalize p) = walk base p) ∧
    (IsNormalForm (normalize p).toList ∧ normalize (normalize p) = normalize p) ∧
    (normalize p = normalize q ↔ ∀ base, walk base p = walk base q) ∧
    ((∀ base, AreDirectories base → walk base p = walk base q) → normalize p = normalize q) ∧
    (same p q = true → normalize p = normalize q) := by
  have hform : IsNormalForm (normalize p).toList := by
    rw [normalize, String.toList_ofList]
    exact normalChars_eq_self_iff.1 (normalChars_normalChars p.toList)
  refine ⟨fun base => walk_normalize base p, ⟨hform, normalize_normalize p⟩, ⟨fun h base => ?_, fun h => ?_⟩,
    normalize_eq_of_walk, normalize_uniform p q⟩
  · rw [← walk_normalize base p, h, walk_normalize]
  · exact normalize_eq_of_walk fun base _ => h base

/-- Spellings with the same components have the same normal form, and so has one that is written in another way and only
leads to the same places. A path that leaves one directory more has another one. -/
theorem outside_characterized :
    (same "../lib//a.ads" "../lib/./a.ads/" = true ∧ normalize "../lib//a.ads" = normalize "../lib/./a.ads/") ∧
      (same "x\\..\\..\\lib\\a.ads" "../lib/a.ads" = false ∧
        ∀ base, walk base "x\\..\\..\\lib\\a.ads" = walk base "../lib/a.ads") ∧
      ¬ ∀ base, walk base "../lib/a.ads" = walk base "../../lib/a.ads" := by
  have hsame : same "../lib//a.ads" "../lib/./a.ads/" = true := by decide +kernel
  refine ⟨⟨hsame, (normalize_characterizes _ _).2.2.2.2 hsame⟩, ⟨by decide +kernel, ?_⟩, ?_⟩
  · exact (normalize_characterizes _ _).2.2.1.1 (by decide +kernel)
  · rw [← (normalize_characterizes _ _).2.2.1]
    decide +kernel

end CrossIndex.Path
