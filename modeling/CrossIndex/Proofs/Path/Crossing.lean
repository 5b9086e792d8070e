/-
The two orders of paths. Files are listed in the order of their path texts, references compare by the components of
their paths. A text is compared character by character, so a name that goes on with a character before the slash
comes before the names that lie below the shorter name, while by components it comes behind them; and a name may come
before `..` or before the slash of the root. Main statement: on normal forms these are the only ways in which the two
orders disagree.
-/
import CrossIndex.Proofs.Path.Meaning
import CrossIndex.Proofs.Path.Order

namespace CrossIndex.Path

/-- The component that a name of a normal form stands for. -/
def Component.ofName (n : Name) : Component :=
  if n = up then .parent else .name n

/-- A path comes before another one as a text, by a character before the slash, but behind it by components. -/
inductive Undercuts (p q : String) : Prop
  /-- The other path starts at the root. -/
  | atRoot {c : Char} {rest : List Char} : p.toList = c :: rest → c < '/' → isAbsolute q.toList = true → Undercuts p q
  /-- The other path goes up where this one enters a name before `..`. -/
  | atUp {front ps qs : List Name} {n : Name} : isAbsolute p.toList = isAbsolute q.toList →
      written p.toList = front ++ n :: ps → written q.toList = front ++ up :: qs → n < up → Undercuts p q
  /-- The other path goes on below a name, where this one has a longer name. -/
  | atName {front ps qs : List Name} {m next : Name} {c : Char} {rest : List Char} :
      isAbsolute p.toList = isAbsolute q.toList → written p.toList = front ++ (m ++ c :: rest) :: ps →
      written q.toList = front ++ m :: next :: qs → c < '/' → Undercuts p q

/-! ## Where two lists part -/

/-- Two lists part: one ends before the other, or they go on with different elements. -/
theorem parting {α : Type} : ∀ {l l' : List α}, l ≠ l' →
    (∃ a rest, l' = l ++ a :: rest) ∨ (∃ a rest, l = l' ++ a :: rest) ∨
    ∃ front a b rest rest', a ≠ b ∧ l = front ++ a :: rest ∧ l' = front ++ b :: rest'
  | [], [], h => absurd rfl h
  | [], b :: l', _ => .inl ⟨b, l', rfl⟩
  | a :: l, [], _ => .inr (.inl ⟨a, l, rfl⟩)
  | a :: l, b :: l', h => by
    by_cases hab : a = b
    · subst hab
      rcases parting fun e : l = l' => h (by rw [e]) with ⟨c, rest, rfl⟩ | ⟨c, rest, rfl⟩ |
        ⟨front, c, d, rest, rest', hcd, rfl, rfl⟩
      · exact .inl ⟨c, rest, rfl⟩
      · exact .inr (.inl ⟨c, rest, rfl⟩)
      · exact .inr (.inr ⟨a :: front, c, d, rest, rest', hcd, rfl, rfl⟩)
    · exact .inr (.inr ⟨[], a, b, l, l', hab, rfl, rfl⟩)

theorem compare_append_left {α : Type} [Ord α] [Std.ReflOrd α] (l a b : List α) :
    compare (l ++ a) (l ++ b) = compare a b := by
  induction l with
  | nil => rfl
  | cons c l ih =>
    rw [List.cons_append, List.cons_append, List.compare_cons_cons, Std.ReflOrd.compare_self, ih]
    rfl

theorem append_lt_append_left {l a b : List Char} : l ++ a < l ++ b ↔ a < b := by
  induction l with
  | nil => rfl
  | cons c l ih =>
    rw [List.cons_append, List.cons_append, List.cons_lt_cons_iff, ih]
    simp

/-- Behind different characters the rest does not matter. -/
theorem append_lt_append_of_ne {front rest rest' : List Char} {a b : Char} (h : a ≠ b) :
    front ++ a :: rest < front ++ b :: rest' ↔ a < b := by
  rw [append_lt_append_left, List.cons_lt_cons_iff]
  simp [h]

theorem not_append_lt (l rest : List Char) : ¬ l ++ rest < l := by
  have h := append_lt_append_left (l := l) (a := rest) (b := [])
  rw [List.append_nil] at h
  rw [h]
  exact List.not_lt_nil rest

theorem lt_append_cons (l rest : List Char) (c : Char) : l < l ++ c :: rest := by
  have h := append_lt_append_left (l := l) (a := []) (b := c :: rest)
  rw [List.append_nil] at h
  exact h.2 (by simp)

/-! ## The orders of characters, names and texts -/

theorem compare_char_gt {a b : Char} : compare a b = .gt ↔ b < a :=
  compareOfLessAndEq_eq_gt Char.le_antisymm Char.le_total Char.not_le a b

theorem compare_name_gt : ∀ {n m : Name}, compare n m = .gt ↔ m < n
  | [], [] => by simp
  | [], _ :: _ => by simp
  | _ :: _, [] => by simp
  | a :: n, b :: m => by
    rw [List.compare_cons_cons, List.cons_lt_cons_iff, Ordering.then_eq_gt, compare_char_gt, compare_name_gt,
      Std.compare_eq_iff_eq, eq_comm]

theorem compare_text_lt {p q : String} : compare p q = .lt ↔ p < q :=
  compareOfLessAndEq_eq_lt

theorem compare_ofName_gt {n m : Name} :
    compare (Component.ofName n) (Component.ofName m) = .gt ↔ n ≠ up ∧ (m = up ∨ m < n) := by
  show compareLex (compareOn Component.rank) (compareOn Component.text) _ _ = .gt ↔ _
  rw [compareLex, Ordering.then_eq_gt]
  simp only [compareOn, Component.ofName]
  have hname : compare 3 2 = Ordering.gt := rfl
  have hup : compare 2 3 = Ordering.lt := rfl
  by_cases hn : n = up <;> by_cases hm : m = up <;>
    simp [hn, hm, Component.rank, Component.text, compare_name_gt, hname, hup]

/-! ## What a normal form is compared by -/

theorem toList_eq (p : String) :
    p.toList = (if isAbsolute p.toList then ['/'] else []) ++ joined (written p.toList) := by
  conv_lhs => rw [← spelled_written p.toList, spelled, List.reverse_reverse]
  split <;> rfl

theorem filterMap_cut (cs : List Char) :
    (segments cs).filterMap Component.ofName? = (cut cs).filterMap Component.ofName? := by
  unfold cut
  split
  · rename_i h
    rw [h]
    rfl
  · rfl

theorem components_eq {p : String} (h : IsNormalForm p.toList) :
    components p = (if isAbsolute p.toList then [.root] else []) ++ (written p.toList).map Component.ofName := by
  have hnames : (written p.toList).filterMap Component.ofName? = (written p.toList).map Component.ofName := by
    rw [← List.filterMap_eq_map]
    refine List.filterMap_congr fun n hn => ?_
    obtain ⟨hne, hhere⟩ := h.named n hn
    simp only [Component.ofName?, Component.ofName, hne, hhere, or_self, if_false, Function.comp_apply]
    split <;> rfl
  rw [← hnames]
  show start p.toList ++ (segments p.toList).filterMap Component.ofName? = _
  cases habs : isAbsolute p.toList with
  | true =>
    obtain ⟨cs, hcs⟩ := isAbsolute_iff.1 habs
    rw [start, written, habs, hcs, segments_slash, List.filterMap_cons_none (by simp [Component.ofName?]),
      List.tail_cons, filterMap_cut]
    rfl
  | false =>
    have hstart : (segments p.toList).head? ≠ some here := by
      intro hhead
      have hne : p.toList ≠ [] := by
        intro hnil
        rw [hnil] at hhead
        cases hhead
      have hmem : here ∈ written p.toList := by
        rw [written, habs, if_neg Bool.false_ne_true, cut, if_neg hne]
        exact List.mem_of_mem_head? hhead
      exact (h.named here hmem).2 rfl
    rw [start, written, habs, filterMap_cut]
    simp [hstart]

theorem joined_cons (n : Name) (names : List Name) : joined (n :: names) = n ++ names.flatMap ('/' :: ·) := by
  induction names generalizing n with
  | nil => simp [joined]
  | cons m names ih => rw [joined, ih, List.flatMap_cons, List.cons_append]

theorem joined_append_cons (front : List Name) (n : Name) (names : List Name) :
    joined (front ++ n :: names) = front.flatMap (· ++ ['/']) ++ (n ++ names.flatMap ('/' :: ·)) := by
  induction front with
  | nil => exact joined_cons n names
  | cons m front ih =>
    rw [List.cons_append, List.flatMap_cons, List.append_assoc, ← ih]
    cases front <;> simp [joined]

/-! ## Where the orders disagree -/

theorem Plain.ne_up_append {n : Name} (hn : Plain n) {c : Char} {rest : List Char} : up ≠ n ++ c :: rest := by
  intro h
  obtain ⟨d, n', rfl⟩ := List.exists_cons_of_ne_nil hn.nonempty
  obtain ⟨rfl, htail⟩ := List.cons.inj h
  cases n' with
  | nil => exact hn.notHere rfl
  | cons d' n' =>
    have hlen := congrArg List.length htail
    simp at hlen

/-- Two paths part at two different names. -/
theorem parts_iff {n m : Name} (hn : Plain n) (hm : Plain m) (hne : n ≠ m) (ps qs : List Name) :
    n ++ ps.flatMap ('/' :: ·) < m ++ qs.flatMap ('/' :: ·) ∧
        compare (Component.ofName n) (Component.ofName m) = .gt ↔
      m = up ∧ n < up ∨ ∃ c rest next more, n = m ++ c :: rest ∧ qs = next :: more ∧ c < '/' := by
  rw [compare_ofName_gt]
  rcases parting hne with ⟨c, rest, rfl⟩ | ⟨c, rest, rfl⟩ | ⟨front, a, b, rest, rest', hab, rfl, rfl⟩
  -- the first name is the start of the second one: it comes first in both orders
  · constructor
    · rintro ⟨-, -, hup | hlt⟩
      · exact absurd hup.symm hn.ne_up_append
      · exact absurd hlt (not_append_lt n (c :: rest))
    · rintro (⟨hup, -⟩ | ⟨d, rest', -, -, h, -, -⟩)
      · exact absurd hup.symm hn.ne_up_append
      · have := congrArg List.length h
        simp only [List.length_append, List.length_cons] at this
        omega
  -- the second name is the start of the first one: behind it a slash or the end is compared with a character
  · have hne' : m ++ c :: rest ≠ up := fun h => hm.ne_up_append h.symm
    have hc : c ≠ '/' := fun h => hn.noSlash (by simp [h])
    constructor
    · rintro ⟨hlt, -⟩
      rw [List.append_assoc, append_lt_append_left] at hlt
      cases qs with
      | nil => exact absurd hlt (List.not_lt_nil _)
      | cons next more =>
        refine .inr ⟨c, rest, next, more, rfl, rfl, ?_⟩
        rw [List.flatMap_cons, List.cons_append, List.cons_append, List.cons_lt_cons_iff] at hlt
        exact hlt.resolve_right fun h => hc h.1
    · rintro (⟨rfl, hlt⟩ | ⟨d, rest', next, more, h, rfl, hd⟩)
      · exact absurd hlt (not_append_lt _ _)
      · obtain ⟨rfl, rfl⟩ := List.cons.inj (List.append_cancel_left h)
        refine ⟨?_, hne', .inr (lt_append_cons m rest c)⟩
        rw [List.append_assoc, append_lt_append_left, List.flatMap_cons]
        exact List.cons_lt_cons_iff.2 (.inl hd)
  -- the names differ at a character, and what is behind it does not count
  · have htext : ∀ u v, (front ++ a :: rest) ++ u < (front ++ b :: rest') ++ v ↔
        front ++ a :: rest < front ++ b :: rest' := by
      intro u v
      simp only [List.append_assoc, List.cons_append, append_lt_append_of_ne hab]
    rw [htext]
    constructor
    · rintro ⟨hlt, -, hup | hgt⟩
      · exact .inl ⟨hup, hup ▸ hlt⟩
      · rw [append_lt_append_of_ne hab] at hlt
        rw [append_lt_append_of_ne (Ne.symm hab)] at hgt
        exact absurd hlt (Char.lt_asymm hgt)
    · rintro (⟨hup, hlt⟩ | ⟨c, more, next, qs', h, -, -⟩)
      · exact ⟨hup ▸ hlt, fun h => hne (h.trans hup.symm), .inl hup⟩
      · rw [List.append_assoc, List.append_cancel_left_eq, List.cons_append] at h
        exact absurd (List.cons.inj h).1 hab

variable {p q : String}

theorem isNormalForm_of_normalize (h : normalize p = p) : IsNormalForm p.toList := by
  rw [← normalChars_eq_self_iff]
  conv_rhs => rw [← h]
  exact (String.toList_ofList).symm

theorem plain_of_mem_written (h : IsNormalForm p.toList) {n : Name} (hn : n ∈ written p.toList) : Plain n :=
  (isNormalForm_iff.1 h).1.plain n (List.mem_reverse.2 hn)

/-- Behind equal starts, two normal forms are compared by what they are written with. -/
theorem orders_of_isAbsolute_eq (hp : IsNormalForm p.toList) (hq : IsNormalForm q.toList)
    (h : isAbsolute p.toList = isAbsolute q.toList) :
    (p < q ↔ joined (written p.toList) < joined (written q.toList)) ∧
      order p q = compare ((written p.toList).map Component.ofName) ((written q.toList).map Component.ofName) := by
  constructor
  · rw [String.lt_iff]
    conv_lhs => rw [toList_eq p, toList_eq q, h]
    exact append_lt_append_left
  · rw [order, components_eq hp, components_eq hq, h, compare_append_left]

theorem ofName_inj {n m : Name} (h : Component.ofName n = Component.ofName m) : n = m := by
  unfold Component.ofName at h
  split at h <;> split at h
  · simp_all
  · cases h
  · cases h
  · exact Component.name.inj h

/-- Two normal forms that start alike part at two different names. -/
theorem parted_iff (hp : IsNormalForm p.toList) (hq : IsNormalForm q.toList)
    (h : isAbsolute p.toList = isAbsolute q.toList) {front ps qs : List Name} {n m : Name}
    (hwp : written p.toList = front ++ n :: ps) (hwq : written q.toList = front ++ m :: qs) (hne : n ≠ m) :
    p < q ∧ order p q = .gt ↔
      m = up ∧ n < up ∨ ∃ c rest next more, n = m ++ c :: rest ∧ qs = next :: more ∧ c < '/' := by
  have hn : Plain n := plain_of_mem_written hp (by rw [hwp]; simp)
  have hm : Plain m := plain_of_mem_written hq (by rw [hwq]; simp)
  have hdiffer : compare (Component.ofName n) (Component.ofName m) ≠ .eq := fun he =>
    hne (ofName_inj (Std.LawfulEqOrd.eq_of_compare he))
  obtain ⟨htext, horder⟩ := orders_of_isAbsolute_eq hp hq h
  rw [htext, horder, hwp, hwq, joined_append_cons, joined_append_cons, append_lt_append_left, List.map_append,
    List.map_append, compare_append_left, List.map_cons, List.map_cons, List.compare_cons_cons, Ordering.then_eq_gt,
    or_iff_left fun h => hdiffer h.1]
  exact parts_iff hn hm hne ps qs

theorem joined_append {front : List Name} (h : front ≠ []) (names : List Name) :
    joined (front ++ names) = joined front ++ names.flatMap ('/' :: ·) := by
  obtain ⟨n, front, rfl⟩ := List.exists_cons_of_ne_nil h
  rw [List.cons_append, joined_cons, joined_cons, List.flatMap_append, List.append_assoc]

/-- A normal form that is written with the first of another one's names comes before it in both orders. -/
theorem not_undercut_of_append (hp : IsNormalForm p.toList) (hq : IsNormalForm q.toList)
    (h : isAbsolute p.toList = isAbsolute q.toList) {names : List Name}
    (hw : written p.toList = written q.toList ++ names ∨ written q.toList = written p.toList ++ names) :
    ¬ (p < q ∧ order p q = .gt) := by
  obtain ⟨htext, horder⟩ := orders_of_isAbsolute_eq hp hq h
  rw [htext, horder]
  rintro ⟨hlt, hgt⟩
  rcases hw with hw | hw
  · rw [hw] at hlt
    by_cases hnil : written q.toList = []
    · rw [hnil] at hlt
      exact List.not_lt_nil _ hlt
    · rw [joined_append hnil] at hlt
      exact not_append_lt _ _ hlt
  · rw [hw, List.map_append] at hgt
    have hfront := compare_append_left ((written p.toList).map Component.ofName) [] (names.map Component.ofName)
    rw [List.append_nil, hgt] at hfront
    cases names <;> simp at hfront

theorem written_eq_nil_iff (h : isAbsolute p.toList = false) : written p.toList = [] ↔ p.toList = [] := by
  constructor
  · intro hw
    rw [toList_eq p, h, hw]
    rfl
  · intro hnil
    rw [hnil]
    rfl

/-- A relative path and one from the root: only what comes before the slash undercuts. -/
theorem undercuts_root_iff (hp : IsNormalForm p.toList) (hq : IsNormalForm q.toList)
    (h : isAbsolute p.toList ≠ isAbsolute q.toList) :
    p < q ∧ order p q = .gt ↔ isAbsolute q.toList = true ∧ ∃ c rest, p.toList = c :: rest ∧ c < '/' := by
  have hroot : ∀ n : Name, compare (Component.ofName n) .root = .gt ∧ compare .root (Component.ofName n) = .lt := by
    intro n
    unfold Component.ofName
    split <;> exact ⟨rfl, rfl⟩
  rw [String.lt_iff, order, components_eq hp, components_eq hq]
  cases hp' : isAbsolute p.toList <;> cases hq' : isAbsolute q.toList
  · exact absurd (hp'.trans hq'.symm) h
  · obtain ⟨cs, hcs⟩ := isAbsolute_iff.1 hq'
    cases hw : written p.toList with
    | nil => simp [(written_eq_nil_iff hp').1 hw]
    | cons n names =>
      obtain ⟨c, rest, htext⟩ := List.exists_cons_of_ne_nil (mt (written_eq_nil_iff hp').2 (by rw [hw]; simp))
      have hc : c ≠ '/' := by
        rintro rfl
        simp [isAbsolute, htext] at hp'
      simp [hcs, htext, List.compare_cons_cons, (hroot n).1, List.cons_lt_cons_iff, hc]
  · cases hw : written q.toList with
    | nil => simp [(written_eq_nil_iff hq').1 hw]
    | cons m names => simp [List.compare_cons_cons, (hroot m).2]
  · exact absurd (hp'.trans hq'.symm) h

/-- On normal forms the order of texts and the order of components disagree in these ways only. -/
theorem undercuts_iff (hp : normalize p = p) (hq : normalize q = q) : Undercuts p q ↔ p < q ∧ order p q = .gt := by
  have hp := isNormalForm_of_normalize hp
  have hq := isNormalForm_of_normalize hq
  constructor
  · rintro (⟨htext, hc, habs⟩ | ⟨habs, hwp, hwq, hlt⟩ | ⟨habs, hwp, hwq, hc⟩)
    · refine (undercuts_root_iff hp hq fun h => ?_).2 ⟨habs, _, _, htext, hc⟩
      rw [← h, htext] at habs
      obtain rfl : _ = '/' := by simpa [isAbsolute] using habs
      exact Char.lt_irrefl _ hc
    · exact (parted_iff hp hq habs hwp hwq (fun h => List.lt_irrefl _ (h ▸ hlt))).2 (.inl ⟨rfl, hlt⟩)
    · exact (parted_iff hp hq habs hwp hwq (by simp)).2 (.inr ⟨_, _, _, _, rfl, rfl, hc⟩)
  · intro h
    by_cases habs : isAbsolute p.toList = isAbsolute q.toList
    · by_cases hw : written p.toList = written q.toList
      · have hsame : written p.toList = written q.toList ++ [] := by rw [hw, List.append_nil]
        exact absurd h (not_undercut_of_append hp hq habs (.inl hsame))
      · rcases parting hw with ⟨n, rest, hwq⟩ | ⟨n, rest, hwp⟩ | ⟨front, n, m, ps, qs, hne, hwp, hwq⟩
        · exact absurd h (not_undercut_of_append hp hq habs (.inr hwq))
        · exact absurd h (not_undercut_of_append hp hq habs (.inl hwp))
        · rcases (parted_iff hp hq habs hwp hwq hne).1 h with ⟨rfl, hlt⟩ | ⟨c, rest, next, more, rfl, rfl, hc⟩
          · exact .atUp habs hwp hwq hlt
          · exact .atName habs hwp hwq hc
    · obtain ⟨hq', c, rest, htext, hc⟩ := (undercuts_root_iff hp hq habs).1 h
      exact .atRoot htext hc hq'

end CrossIndex.Path
