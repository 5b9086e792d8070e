/-
The order of references is a total order, and it finds two references equal exactly if they are the same.
So whatever keeps references apart by this order keeps exactly one of those that are the same: an ordered
set does, and so does a closure with the references it has emitted. Main statement: all of this together.
-/
import CrossIndex.Proofs.Cursor.Protocol

namespace CrossIndex

namespace Reference

/-- Of each class of references that are the same exactly one is kept, and nothing else. -/
structure KeepsOne (kept refs : List Reference) : Prop where
  among : ∀ k ∈ kept, k ∈ refs
  one : ∀ r ∈ refs, (kept.countP fun k => k.same r) = 1

theorem same_refl (a : Reference) : a.same a = true :=
  LawfulElement.refl a

theorem same_comm (a b : Reference) : a.same b = b.same a :=
  LawfulElement.symm a b

theorem same_trans {a b c : Reference} (hab : a.same b = true) (hbc : b.same c = true) : a.same c = true :=
  LawfulElement.trans a b c hab hbc

/-- Of references that differ from each other at most one is the same as a given one. -/
theorem countP_same_le_one {kept : List Reference} (h : kept.Pairwise fun a b => a.same b = false) (r : Reference) :
    (kept.countP fun k => k.same r) ≤ 1 := by
  induction kept with
  | nil => exact Nat.zero_le 1
  | cons k kept ih =>
    obtain ⟨hk, hkept⟩ := List.pairwise_cons.1 h
    rcases hr : k.same r
    · rw [List.countP_cons_of_neg (by simp [hr])]
      exact ih hkept
    · have hnone : (kept.countP fun k => k.same r) = 0 := by
        rw [List.countP_eq_zero]
        intro x hx hxr
        rw [same_comm] at hxr
        have := hk x hx
        rw [same_trans hr hxr] at this
        cases this
      rw [List.countP_cons_of_pos (by simp [hr]), hnone]

theorem KeepsOne.of_distinct {kept refs : List Reference} (among : ∀ k ∈ kept, k ∈ refs)
    (covers : ∀ r ∈ refs, ∃ k ∈ kept, k.same r = true) (distinct : kept.Pairwise fun a b => a.same b = false) :
    KeepsOne kept refs where
  among := among
  one r hr := by
    have hpos : 0 < kept.countP fun k => k.same r := List.countP_pos_iff.2 (covers r hr)
    have := countP_same_le_one distinct r
    omega

/-! ## Ordered sets -/

instance : Std.TransOrd Reference :=
  inferInstanceAs (Std.TransCmp (
    compareLex (compareOn pathKey) <|
    compareLex (compareOn line) <|
    compareLex (compareOn column) <|
    compareLex (compareOn kindId) <|
    compareLex (compareOn fun r => r.entity.id) <|
    compareLex (compareOn fun r => r.scope.id) <|
    compareLex (compareOn fileId) <|
    compareLex (compareOn kind) (compareOn isEndOfScope)))

/-- The ordered set to which some references were added one after the other. -/
def orderedSet (refs : List Reference) : Std.TreeSet Reference :=
  refs.foldl Std.TreeSet.insert ∅

theorem orderedSet_concat (refs : List Reference) (r : Reference) :
    orderedSet (refs ++ [r]) = (orderedSet refs).insert r := by
  rw [orderedSet, List.foldl_append]
  rfl

/-- A set holds a reference if one that is the same was added. -/
theorem mem_orderedSet {refs : List Reference} {r : Reference} : r ∈ orderedSet refs ↔ ∃ k ∈ refs, k.same r = true := by
  induction refs using List.reverseRecOn with
  | nil => simp [orderedSet]
  | append_singleton refs k ih =>
    rw [orderedSet_concat, Std.TreeSet.mem_insert, compare_eq, ih]
    simp only [List.mem_append, List.mem_singleton, or_and_right, exists_or, exists_eq_left]
    exact or_comm

/-- Being the same, as the test that goes with the order. The equality test that references have of their own tells
spellings apart. -/
@[reducible]
def sameBEq : BEq Reference :=
  ⟨same⟩

theorem lawful_sameBEq : @Std.LawfulBEqCmp Reference sameBEq compare :=
  @Std.LawfulBEqCmp.mk Reference sameBEq compare fun {a b} => compare_eq a b

theorem mem_iff_exists_mem_toList {set : Std.TreeSet Reference} {r : Reference} :
    r ∈ set ↔ ∃ k ∈ set.toList, k.same r = true := by
  let _ := sameBEq
  have := lawful_sameBEq
  rw [← Std.TreeSet.contains_iff_mem, ← Std.TreeSet.contains_toList, List.contains_iff_exists_mem_beq]
  refine exists_congr fun k => and_congr_right fun _ => ?_
  show r.same k = true ↔ _
  rw [same_comm]

/-- Adding a reference to a set adds it to the elements, unless one of them is the same. -/
theorem mem_toList_insert {set : Std.TreeSet Reference} {r k : Reference} :
    k ∈ (set.insert r).toList ↔ k ∈ set.toList ∨ (r ∉ set ∧ k = r) := by
  let _ := sameBEq
  have := lawful_sameBEq
  rw [Std.TreeSet.toList_insert_perm.mem_iff]
  by_cases h : r ∈ set <;> simp [h, or_comm]

theorem mem_of_mem_toList_orderedSet {refs : List Reference} {k : Reference} (h : k ∈ (orderedSet refs).toList) :
    k ∈ refs := by
  induction refs using List.reverseRecOn with
  | nil => exact absurd (Std.TreeSet.mem_of_mem_toList h) Std.TreeSet.not_mem_emptyc
  | append_singleton refs r ih =>
    rw [orderedSet_concat, mem_toList_insert] at h
    rcases h with h | ⟨-, rfl⟩
    · exact List.mem_append_left _ (ih h)
    · exact List.mem_append_right _ (List.mem_singleton_self k)

theorem distinct_toList (set : Std.TreeSet Reference) : set.toList.Pairwise fun a b => a.same b = false := by
  refine Std.TreeSet.distinct_toList.imp fun {a b} h => ?_
  rwa [compare_eq, Bool.not_eq_true] at h

/-- An ordered set keeps one of all that are the same. -/
theorem orderedSet_keepsOne (refs : List Reference) : KeepsOne (orderedSet refs).toList refs :=
  .of_distinct (fun _ => mem_of_mem_toList_orderedSet)
    (fun r hr => mem_iff_exists_mem_toList.1 (mem_orderedSet.2 ⟨r, hr, same_refl r⟩)) (distinct_toList _)

end Reference

/-! ## Closures -/

namespace Closure

section

variable {α : Type} [ClosureElement α] [LawfulElement α] {w : Walker α} {seed : Entity} {log : List Int}
  {taken : List α} {c : Closure α}

theorem Progress.move (hp : Progress w seed log taken c) (m : Move) :
    ∃ log' taken', Progress w seed log' taken' ((protocol w).move c m) := by
  have hmove : (protocol w).move c m = c.advance w := by
    cases m with
    | advance => rfl
    | next => exact congrArg Prod.snd (next_eq w c)
  rw [hmove, advance]
  split
  · exact hp.settle (fuel w)
  · exact ⟨log, taken, hp⟩

theorem Progress.after (hp : Progress w seed log taken c) (moves : List Move) :
    ∃ log' taken', Progress w seed log' taken' ((protocol w).after c moves) := by
  induction moves generalizing log taken c with
  | nil => exact ⟨log, taken, hp⟩
  | cons m moves ih =>
    obtain ⟨log', taken', hmoved⟩ := hp.move m
    exact ih hmoved

end

/-- A closure of references has emitted one of all the same answers that it has looked at, and it finds out by the
order which ones these are. -/
structure EmitsOnce (w : Walker Reference) (c : Closure Reference) : Prop where
  tested : ∀ r, c.isEmitted r = true ↔ r ∈ Reference.orderedSet c.emitted
  kept : ∃ (log : List Int) (looked : List Reference), log.Nodup ∧ (∀ id, id ∈ log ↔ id ∈ c.visited) ∧
    looked ++ c.direct = log.flatMap w.answers ∧ Reference.KeepsOne c.emitted looked

theorem isEmitted_iff {c : Closure Reference} {r : Reference} :
    c.isEmitted r = true ↔ r ∈ Reference.orderedSet c.emitted := by
  rw [Reference.mem_orderedSet, isEmitted, List.any_eq_true]
  refine exists_congr fun k => and_congr_right fun _ => ?_
  rw [beq_iff_eq, Reference.compare_eq, Reference.same_comm]

theorem Progress.emitsOnce {w : Walker Reference} {seed : Entity} {log : List Int} {looked : List Reference}
    {c : Closure Reference} (hp : Progress w seed log looked c) : EmitsOnce w c := by
  have hmem : ∀ k, k ∈ c.emitted ↔ k ∈ firsts looked := fun k => by rw [← hp.emitted, List.mem_reverse]
  have hcovers : ∀ r ∈ looked, ∃ k ∈ c.emitted, k.same r = true := by
    intro r hr
    obtain ⟨k, hk, hsame⟩ := exists_mem_firsts hr
    exact ⟨k, (hmem k).2 hk, hsame⟩
  have hdistinct : c.emitted.Pairwise fun a b => a.same b = false := by
    have hfirsts := firsts_pairwise looked
    rw [← hp.emitted, List.pairwise_reverse] at hfirsts
    exact hfirsts.imp fun {a b} h => by rw [Reference.same_comm]; exact h
  exact ⟨fun r => isEmitted_iff, log, looked, hp.nodup, fun id => (hp.visited id).symm, hp.answers,
    .of_distinct (fun k hk => mem_of_mem_firsts ((hmem k).1 hk)) hcovers hdistinct⟩

end Closure

/-- The order of references is a total order on what the same references have in common. So an ordered set keeps one of
all that are the same, and so does a closure, from its start on and however it is moved. -/
theorem Reference.order_total :
    (∀ a b : Reference, compare a b = .eq ↔ a.same b = true) ∧
    (∀ a b : Reference, compare b a = (compare a b).swap) ∧
    (∀ a b c : Reference, (compare a b).isLE = true → (compare b c).isLE = true → (compare a c).isLE = true) ∧
    (∀ (a b c : Reference) (o : Ordering), compare a b = o → compare b c = o → compare a c = o) ∧
    (∀ refs : List Reference, KeepsOne (orderedSet refs).toList refs ∧
      ∀ r, r ∈ orderedSet refs ↔ ∃ k ∈ refs, k.same r = true) ∧
    ∀ (w : Walker Reference) (seed : Entity) (moves : List Move),
      Closure.EmitsOnce w ((Closure.protocol w).after (Closure.start w seed) moves) := by
  refine ⟨compare_eq, fun a b => Std.OrientedCmp.eq_swap, fun a b c => Std.TransCmp.isLE_trans,
    fun a b c o hab hbc => ?_, fun refs => ⟨orderedSet_keepsOne refs, fun r => mem_orderedSet⟩, fun w seed moves => ?_⟩
  · cases o with
    | lt => exact Std.TransCmp.lt_trans hab hbc
    | eq => exact Std.TransCmp.eq_trans hab hbc
    | gt => exact Std.TransCmp.gt_trans hab hbc
  · obtain ⟨log, looked, hstart⟩ := (Closure.initial_progress w seed).settle (Closure.fuel w)
    obtain ⟨log', looked', hp⟩ := hstart.after moves
    exact hp.emitsOnce

/-- A reference to an entity on a line of a file, with a spelling of the path of the file. -/
def spelledReference (path : String) (line : Int) (fuzzy : Bool) : Reference :=
  ⟨⟨1, fuzzy⟩, some ⟨1, path⟩, line, 5, "reference", 'r', Entity.ofId 2, false⟩

/-- A question that is answered by one reference in two spellings, and by another one. -/
def spelledWalker : Walker Reference :=
  ⟨[1], fun _ => .ok [spelledReference "src//a.ads" 1 true, spelledReference "src/./a.ads" 1 false,
    spelledReference "src/a.ads" 2 false], fun _ => []⟩

/-- Of the two spellings a set keeps one, and a closure emits one. -/
theorem spelled_total :
    spelledReference "src//a.ads" 1 true ≠ spelledReference "src/./a.ads" 1 false ∧
    compare (spelledReference "src//a.ads" 1 true) (spelledReference "src/./a.ads" 1 false) = .eq ∧
    compare (spelledReference "src/a.ads" 2 false) (spelledReference "src//a.ads" 1 true) =
      (compare (spelledReference "src//a.ads" 1 true) (spelledReference "src/a.ads" 2 false)).swap ∧
    (compare (spelledReference "src//a.ads" 1 true) (spelledReference "src/b.ads" 1 false)).isLE = true ∧
    compare (spelledReference "src//a.ads" 1 true) (spelledReference "src/b.ads" 1 false) = .lt ∧
    Reference.KeepsOne
      (Reference.orderedSet [spelledReference "src//a.ads" 1 true, spelledReference "src/./a.ads" 1 false]).toList
      [spelledReference "src//a.ads" 1 true, spelledReference "src/./a.ads" 1 false] ∧
    ((Closure.protocol spelledWalker).after (Closure.start spelledWalker (Entity.ofId 1)) [.next]).emitted =
      [spelledReference "src/a.ads" 2 false, spelledReference "src//a.ads" 1 true] ∧
    Closure.EmitsOnce spelledWalker
      ((Closure.protocol spelledWalker).after (Closure.start spelledWalker (Entity.ofId 1)) [.next]) := by
  obtain ⟨heq, hswap, hle, htrans, hsets, hclosures⟩ := Reference.order_total
  exact ⟨by decide +kernel, (heq _ _).2 (by decide +kernel), hswap _ _,
    hle _ (spelledReference "src/a.ads" 2 false) _ (by decide +kernel) (by decide +kernel),
    htrans _ (spelledReference "src/a.ads" 2 false) _ .lt (by decide +kernel) (by decide +kernel), (hsets _).1,
    by decide +kernel, hclosures _ _ _⟩

end CrossIndex
