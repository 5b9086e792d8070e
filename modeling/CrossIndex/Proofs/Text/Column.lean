/-
The two scans of a line against each other. On byte columns that start a character or lie past the end, visible columns
strictly increase, and they lie at or before a given visible column exactly if the byte columns lie at or before the one
that covers it. A byte column within a character has the visible column of what comes next. Main statement: all of this
at once, for columns that signed 32-bit integers hold.
-/
import CrossIndex.Text.Column
import Mathlib.Order.Bounds.Basic

namespace CrossIndex.Text

/-- The number of bytes of some characters. -/
def byteLength : List Char → Nat
  | [] => 0
  | c :: cs => c.utf8Size + byteLength cs

/-- A column starts one of some characters, the first of which stands in a given column, or lies past their end. -/
def StartsFrom (first : Nat) (cs : List Char) (column : Nat) : Prop :=
  (∃ before c after, cs = before ++ c :: after ∧ column = first + byteLength before) ∨ first + byteLength cs ≤ column

/-- A byte column starts a character of a line or lies past its end. -/
def IsStart (line : String) (column : Nat) : Prop :=
  StartsFrom 1 line.toList column

/-- The cells that tabs in place of all characters would take, and the distance of a byte column past the end of the
line, stay within signed 32-bit integers. -/
def Fits (line : String) (column tabWidth : Nat) : Prop :=
  tabWidth * (line.length + 1) + (column - (line.utf8ByteSize + 1)) < 2147483648

instance (line : String) (column tabWidth : Nat) : Decidable (Fits line column tabWidth) :=
  inferInstanceAs (Decidable (_ < _))

/-- How the two scans of a line answer each other. -/
structure Adjoint (line : String) (tabWidth : Nat) : Prop where
  increasing : ∀ a b, IsStart line a → IsStart line b → Fits line b tabWidth → a < b →
    visibleColumn line a tabWidth < visibleColumn line b tabWidth
  le_iff : ∀ b v, IsStart line b → Fits line b tabWidth → 1 ≤ v →
    (visibleColumn line b tabWidth ≤ v ↔ b ≤ byteColumn line v tabWidth)
  least : ∀ b, 1 ≤ b → Fits line b tabWidth →
    IsLeast {n | b ≤ n ∧ IsStart line n} (byteColumn line (visibleColumn line b tabWidth) tabWidth)
  bounded : ∀ b, 1 ≤ b → Fits line b tabWidth →
    1 ≤ visibleColumn line b tabWidth ∧ visibleColumn line b tabWidth < 2147483648

/-! ## Columns that start a character -/

section Starts

variable {first column : Nat} {c : Char} {cs : List Char}

@[simp] theorem byteLength_nil : byteLength [] = 0 := rfl

@[simp] theorem byteLength_cons : byteLength (c :: cs) = c.utf8Size + byteLength cs := rfl

theorem byteLength_toList (line : String) : byteLength line.toList = line.utf8ByteSize := by
  rw [← String.size_toByteArray, ← String.utf8Encode_toList, List.utf8Encode, List.size_toByteArray]
  induction line.toList with
  | nil => rfl
  | cons c cs ih => rw [byteLength_cons, ih, List.flatMap_cons, List.length_append, String.length_utf8EncodeChar]

@[simp] theorem startsFrom_nil : StartsFrom first [] column ↔ first ≤ column := by
  simp [StartsFrom]

@[simp] theorem startsFrom_cons :
    StartsFrom first (c :: cs) column ↔ column = first ∨ StartsFrom (first + c.utf8Size) cs column := by
  constructor
  · rintro (⟨before, d, after, hcs, rfl⟩ | hpast)
    · cases before with
      | nil => exact .inl rfl
      | cons b before =>
        obtain ⟨rfl, rfl⟩ := List.cons.inj hcs
        exact .inr (.inl ⟨before, d, after, rfl, (Nat.add_assoc _ _ _).symm⟩)
    · exact .inr (.inr (by rwa [byteLength_cons, ← Nat.add_assoc] at hpast))
  · rintro (rfl | ⟨before, d, after, rfl, rfl⟩ | hpast)
    · exact .inl ⟨[], c, cs, rfl, rfl⟩
    · exact .inl ⟨c :: before, d, after, rfl, Nat.add_assoc _ _ _⟩
    · exact .inr (by rwa [byteLength_cons, ← Nat.add_assoc])

theorem StartsFrom.le (h : StartsFrom first cs column) : first ≤ column := by
  rcases h with ⟨before, -, -, -, rfl⟩ | hpast <;> omega

end Starts

/-! ## Single steps -/

theorem wrap32_eq_self {n : Int} (hpos : 0 ≤ n) (hn : n < 2147483648) : wrap32 n = n := by
  unfold wrap32
  exact Int.bmod_eq_of_le (by omega) (by omega)

/-- A character takes at least one cell and at most as many as a tab stop has. -/
theorem advance_bounds {tab visible : Int} (htab : 1 ≤ tab) (hvisible : 1 ≤ visible) (c : Char) :
    visible < advance tab visible c ∧ advance tab visible c ≤ visible + tab := by
  unfold advance
  split
  · have hdiv : (visible - 1).tdiv tab = (visible - 1) / tab := Int.tdiv_eq_ediv_of_nonneg (by omega)
    have hlow := Int.ediv_mul_le (visible - 1) (show tab ≠ 0 by omega)
    have hhigh := Int.lt_ediv_add_one_mul_self (visible - 1) (show 0 < tab by omega)
    rw [Int.add_mul, Int.one_mul] at hhigh
    rw [hdiv, Int.add_mul, Int.one_mul]
    omega
  · omega

/-! ## Scans from a character on -/

section Scans

variable {tab wanted : Int} {target : Nat}

theorem le_byteFrom (tab wanted : Int) : ∀ (cs : List Char) (offset : Nat) (visible : Int),
    offset + 1 ≤ byteFrom tab wanted offset visible cs
  | [], offset, visible => by
    unfold byteFrom
    omega
  | c :: cs, offset, visible => by
    unfold byteFrom
    dsimp only
    split
    · exact Nat.le_refl _
    · have hrest := le_byteFrom tab wanted cs (offset + c.utf8Size) (advance tab visible c)
      omega

variable (htab : 1 ≤ tab)
include htab

theorem visibleFrom_bounds : ∀ (cs : List Char) {offset : Nat} {visible : Int}, 1 ≤ visible →
    target - (offset + byteLength cs) < 2147483648 →
    visible ≤ visibleFrom tab target offset visible cs ∧
      visibleFrom tab target offset visible cs ≤ visible + tab * cs.length + (target - (offset + byteLength cs) : Nat)
  | [], offset, visible, _, hfits => by
    rw [byteLength_nil, Nat.add_zero] at hfits
    rw [visibleFrom, wrap32_eq_self (by omega) (by omega), byteLength_nil, List.length_nil]
    omega
  | c :: cs, offset, visible, hvisible, hfits => by
    obtain ⟨hlow, hhigh⟩ := advance_bounds htab hvisible c
    have hpast : offset + byteLength (c :: cs) = offset + c.utf8Size + byteLength cs := (Nat.add_assoc _ _ _).symm
    have hcells : tab * (c :: cs).length = tab * cs.length + tab := by
      rw [List.length_cons, Int.natCast_add_one, Int.mul_add, Int.mul_one]
    have hrow : 0 ≤ tab * cs.length := Int.mul_nonneg (by omega) (by omega)
    rw [hpast] at hfits ⊢
    rw [hcells, visibleFrom]
    split
    · omega
    · have hrest := visibleFrom_bounds cs (show 1 ≤ advance tab visible c by omega) hfits
      omega

/-- A byte offset that starts a character, or lies past the end, is scanned up to within the cells that end before the
wanted ones exactly if the byte column of the wanted cell is not before it. -/
theorem visibleFrom_le_iff : ∀ (cs : List Char) {offset : Nat} {visible : Int}, 1 ≤ visible → visible ≤ wanted →
    StartsFrom (offset + 1) cs (target + 1) → target - (offset + byteLength cs) < 2147483648 →
    (visibleFrom tab target offset visible cs ≤ wanted ↔ target + 1 ≤ byteFrom tab wanted offset visible cs)
  | [], offset, visible, _, hwanted, hstart, hfits => by
    rw [startsFrom_nil] at hstart
    rw [byteLength_nil, Nat.add_zero] at hfits
    rw [visibleFrom, byteFrom, wrap32_eq_self (by omega) (by omega)]
    omega
  | c :: cs, offset, visible, hvisible, hwanted, hstart, hfits => by
    have hnext := (advance_bounds htab hvisible c).1
    rw [byteLength_cons, ← Nat.add_assoc] at hfits
    rcases startsFrom_cons.1 hstart with hhere | hlater
    · have hbyte := le_byteFrom tab wanted (c :: cs) offset visible
      rw [visibleFrom, if_pos (by omega)]
      omega
    · have hpos := c.utf8Size_pos
      have hsize := hlater.le
      rw [Nat.add_right_comm] at hlater
      rw [visibleFrom, if_neg (by omega), byteFrom]
      split
      · -- the wanted cell is one of this character, which ends before the target
        have hbeyond := (visibleFrom_bounds htab cs (show 1 ≤ advance tab visible c by omega) hfits).1
        omega
      · exact visibleFrom_le_iff cs (by omega) (by omega) hlater hfits

/-- Scanning for a byte offset and back leads to the next start, also from within a character. -/
theorem isLeast_byteFrom : ∀ (cs : List Char) {offset : Nat} {visible : Int}, 1 ≤ visible →
    target - (offset + byteLength cs) < 2147483648 →
    IsLeast {n | target + 1 ≤ n ∧ StartsFrom (offset + 1) cs n}
      (byteFrom tab (visibleFrom tab target offset visible cs) offset visible cs)
  | [], offset, visible, _, hfits => by
    rw [byteLength_nil, Nat.add_zero] at hfits
    rw [visibleFrom, byteFrom, wrap32_eq_self (by omega) (by omega)]
    refine ⟨⟨by omega, startsFrom_nil.2 (by omega)⟩, fun n hn => ?_⟩
    have hfirst := startsFrom_nil.1 hn.2
    have htarget := hn.1
    omega
  | c :: cs, offset, visible, hvisible, hfits => by
    have hnext := (advance_bounds htab hvisible c).1
    rw [byteLength_cons, ← Nat.add_assoc] at hfits
    rw [visibleFrom]
    split
    · rename_i hhere
      rw [byteFrom, if_pos hnext]
      exact ⟨⟨by omega, startsFrom_cons.2 (.inl rfl)⟩, fun n hn => hn.2.le⟩
    · rename_i hlater
      have hbeyond := (visibleFrom_bounds htab cs (show 1 ≤ advance tab visible c by omega) hfits).1
      rw [byteFrom, if_neg (by omega)]
      -- the character itself starts before the target
      have hrest := isLeast_byteFrom cs (show 1 ≤ advance tab visible c by omega) hfits
      have hsame : {n | target + 1 ≤ n ∧ StartsFrom (offset + 1) (c :: cs) n} =
          {n | target + 1 ≤ n ∧ StartsFrom (offset + c.utf8Size + 1) cs n} := by
        ext n
        refine and_congr_right fun hn => ?_
        rw [startsFrom_cons, Nat.add_right_comm, or_iff_right (by omega)]
      rw [hsame]
      exact hrest

end Scans

/-! ## Columns of a line -/

theorem Fits.mono {line : String} {a b tabWidth : Nat} (h : Fits line b tabWidth) (hab : a ≤ b) :
    Fits line a tabWidth := by
  unfold Fits at *
  omega

/-- A tab width for which a column fits is the distance between tab stops. -/
theorem Fits.tabStop_eq {line : String} {column tabWidth : Nat} (h : Fits line column tabWidth) (htab : 1 ≤ tabWidth) :
    tabStop tabWidth = tabWidth := by
  have hwidth : tabWidth * 1 ≤ tabWidth * (line.length + 1) := Nat.mul_le_mul_left _ (by omega)
  unfold Fits at h
  rw [tabStop, wrap32_eq_self (by omega) (by omega)]
  omega

/-- Byte columns and visible columns of a line answer each other, whatever tabs and characters of several bytes it has:
visible columns strictly increase on starts, the two scans form a Galois connection there, and from anywhere they lead
to the next start, so back to a start itself. -/
theorem columns_adjoint (line : String) {tabWidth : Nat} (htab : 1 ≤ tabWidth) : Adjoint line tabWidth := by
  have hstop : ∀ {b}, Fits line b tabWidth → (1 : Int) ≤ tabStop tabWidth := fun h => by
    rw [h.tabStop_eq htab]
    omega
  have hpast : ∀ {b}, Fits line b tabWidth → b - 1 - (0 + byteLength line.toList) < 2147483648 := fun h => by
    rw [byteLength_toList]
    unfold Fits at h
    omega
  have hiff : ∀ b v, IsStart line b → Fits line b tabWidth → 1 ≤ v →
      (visibleColumn line b tabWidth ≤ v ↔ b ≤ byteColumn line v tabWidth) := fun b v hb hfits hv => by
    obtain ⟨b, rfl⟩ := Nat.exists_eq_add_of_le' hb.le
    exact visibleFrom_le_iff (hstop hfits) line.toList (Int.le_refl 1) hv hb (hpast hfits)
  have hleast : ∀ b, 1 ≤ b → Fits line b tabWidth →
      IsLeast {n | b ≤ n ∧ IsStart line n} (byteColumn line (visibleColumn line b tabWidth) tabWidth) :=
    fun b hb hfits => by
      obtain ⟨b, rfl⟩ := Nat.exists_eq_add_of_le' hb
      exact isLeast_byteFrom (hstop hfits) line.toList (Int.le_refl 1) (hpast hfits)
  refine ⟨fun a b ha hb hfits hab => ?_, hiff, hleast, fun b hb hfits => ?_⟩
  · -- a later start with no larger visible column would lie at or before the one that the earlier one leads back to
    by_contra hle
    have hone : 1 ≤ visibleColumn line a tabWidth :=
      (visibleFrom_bounds (hstop hfits) line.toList (Int.le_refl 1) (hpast (hfits.mono hab.le))).1
    have hback := (hiff b _ hb hfits hone).1 (not_lt.1 hle)
    have hself := (hleast a ha.le (hfits.mono hab.le)).2 ⟨le_refl a, ha⟩
    omega
  · obtain ⟨hlow, hhigh⟩ := visibleFrom_bounds (hstop hfits) line.toList (Int.le_refl 1) (hpast hfits)
    refine ⟨hlow, lt_of_le_of_lt hhigh ?_⟩
    rw [hfits.tabStop_eq htab, String.length_toList, byteLength_toList]
    unfold Fits at hfits
    have hcells : tabWidth * (line.length + 1) = tabWidth * line.length + tabWidth := Nat.mul_succ _ _
    omega

/-- A line with a character of two bytes, a tab, and one more character. -/
def tabbedLine : String :=
  "é\tX"

/-- The second byte of the first character is no start and leads to the tab, which covers the cells up to the next tab
stop; past the end bytes and cells go on together. -/
theorem tabbedLine_adjoint :
    (1 ≤ 8 ∧ Fits tabbedLine 7 8 ∧ Adjoint tabbedLine 8) ∧
      (¬ IsStart tabbedLine 2 ∧ IsLeast {n | 2 ≤ n ∧ IsStart tabbedLine n} 3 ∧ visibleColumn tabbedLine 2 8 = 2) ∧
      (IsStart tabbedLine 4 ∧ visibleColumn tabbedLine 4 8 = 9 ∧ byteColumn tabbedLine 8 8 = 3) ∧
      (IsStart tabbedLine 7 ∧ visibleColumn tabbedLine 7 8 = 12 ∧ byteColumn tabbedLine 12 8 = 7) := by
  have hadjoint := columns_adjoint tabbedLine (show 1 ≤ 8 by decide)
  have hsecond := hadjoint.least 2 (by decide) (by decide)
  have hthird := hadjoint.least 4 (by decide) (by decide)
  have hpast := hadjoint.least 7 (by decide) (by decide)
  rw [show byteColumn tabbedLine (visibleColumn tabbedLine 2 8) 8 = 3 by decide +kernel] at hsecond
  rw [show byteColumn tabbedLine (visibleColumn tabbedLine 4 8) 8 = 4 by decide +kernel] at hthird
  rw [show byteColumn tabbedLine (visibleColumn tabbedLine 7 8) 8 = 7 by decide +kernel] at hpast
  refine ⟨⟨by decide, by decide, hadjoint⟩, ⟨fun hstart => ?_, hsecond, by decide +kernel⟩,
    ⟨hthird.1.2, by decide +kernel, by decide +kernel⟩, hpast.1.2, by decide +kernel, by decide +kernel⟩
  have hle : 3 ≤ 2 := hsecond.2 ⟨Nat.le_refl 2, hstart⟩
  omega

end CrossIndex.Text
