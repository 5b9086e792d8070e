/-
The order of paths is a linear order on what paths are made of: it finds two paths equal exactly if
they have the same components. A list that is sorted by any order comes out in that order.
-/
import CrossIndex.Path.Component

namespace CrossIndex

theorem pairwise_mergeSort_isLE {α : Type} {order : α → α → Ordering} [Std.TransCmp order] (l : List α) :
    (l.mergeSort fun a b => (order a b).isLE).Pairwise fun a b => (order a b).isLE := by
  refine List.pairwise_mergeSort (fun _ _ _ => Std.TransCmp.isLE_trans) (fun a b => ?_) l
  have hswap : order b a = (order a b).swap := Std.OrientedCmp.eq_swap
  rw [hswap]
  cases order a b <;> rfl

instance : Std.LawfulEqOrd Path.Component where
  compare_self {a} := by
    show compareLex (compareOn Path.Component.rank) (compareOn Path.Component.text) a a = .eq
    rw [compareLex_eq_eq]
    exact ⟨Std.ReflOrd.compare_self, Std.ReflOrd.compare_self⟩
  eq_of_compare {a b} h := by
    have h' : compareLex (compareOn Path.Component.rank) (compareOn Path.Component.text) a b = .eq := h
    rw [compareLex_eq_eq] at h'
    obtain ⟨hrank, htext⟩ := h'
    have hr : a.rank = b.rank := Std.LawfulEqOrd.eq_of_compare hrank
    have ht : a.text = b.text := Std.LawfulEqOrd.eq_of_compare htext
    cases a <;> cases b <;> simp_all [Path.Component.rank, Path.Component.text]

instance : Std.TransOrd Path.Component :=
  inferInstanceAs (Std.TransCmp (compareLex (compareOn Path.Component.rank) (compareOn Path.Component.text)))

namespace Path

theorem order_eq_iff {a b : String} : order a b = .eq ↔ same a b = true := by
  unfold order same
  rw [Std.compare_eq_iff_eq, beq_iff_eq]

theorem order_trans {a b c : String} (h : order a b = .lt) (h' : order b c = .lt) : order a c = .lt := by
  unfold order at *
  exact Std.TransCmp.lt_trans h h'

theorem order_gt_iff {a b : String} : order a b = .gt ↔ order b a = .lt := by
  unfold order
  exact Std.OrientedCmp.gt_iff_lt

theorem order_congr_right {a b c : String} (h : same a b = true) : order c a = order c b := by
  unfold order
  rw [show components a = components b from beq_iff_eq.1 h]

theorem same_of_order_lt {a b : String} (h : order a b = .lt) : same a b = false := by
  rw [← Bool.not_eq_true, ← order_eq_iff, h]
  simp

end Path

end CrossIndex
