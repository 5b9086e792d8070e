/-
The tokens of JSON text are read as they are written. Blanks before a token do not count; the decimal
digits of an integer read as that integer when no digit, fraction or exponent follows them; and every
character of a text is written as one piece of a literal, which denotes that character.
-/
import CrossIndex.Json.Parser
import Mathlib.Tactic.SplitIfs

namespace CrossIndex

namespace Text

/-! ## Digits -/

/-- A decimal digit as a character. -/
theorem digit_spec : ∀ d < 10, (Char.ofNat (0x30 + d)).isDigit = true ∧ (Char.ofNat (0x30 + d)).toNat = 0x30 + d ∧
    (Char.ofNat (0x30 + d) = '0' → d = 0) := by
  decide

theorem decimalChars_ne_nil (n : Nat) : decimalChars n ≠ [] := by
  unfold decimalChars
  split <;> simp

theorem isDigit_of_mem_decimalChars (n : Nat) : ∀ c ∈ decimalChars n, c.isDigit = true := by
  induction n using decimalChars.induct with
  | case1 n h =>
    rw [decimalChars, if_pos h]
    rintro c hc
    rw [List.mem_singleton.1 hc]
    exact (digit_spec n h).1
  | case2 n h ih =>
    rw [decimalChars, if_neg h]
    rintro c hc
    rcases List.mem_append.1 hc with hc | hc
    · exact ih c hc
    · rw [List.mem_singleton.1 hc]
      exact (digit_spec (n % 10) (Nat.mod_lt _ (by decide))).1

/-- Only the digits of zero start with a zero. -/
theorem head_decimalChars (n : Nat) (h : (decimalChars n).head? = some '0') : n = 0 := by
  induction n using decimalChars.induct with
  | case1 n hn =>
    rw [decimalChars, if_pos hn, List.head?_cons, Option.some.injEq] at h
    exact (digit_spec n hn).2.2 h
  | case2 n hn ih =>
    obtain ⟨d, ds, hds⟩ := List.exists_cons_of_ne_nil (decimalChars_ne_nil (n / 10))
    rw [decimalChars, if_neg hn, hds] at h
    rw [hds] at ih
    have := ih h
    omega

/-- The digits of a number write that number. -/
theorem ofDigits_decimalChars (n : Nat) : ofDigits (decimalChars n) = n := by
  induction n using decimalChars.induct with
  | case1 n h =>
    rw [decimalChars, if_pos h]
    show 0 * 10 + ((Char.ofNat (0x30 + n)).toNat - 0x30) = n
    rw [(digit_spec n h).2.1]
    omega
  | case2 n h ih =>
    have hlast := (digit_spec (n % 10) (Nat.mod_lt _ (by decide))).2.1
    unfold ofDigits at ih ⊢
    rw [decimalChars, if_neg h, List.foldl_append, ih, List.foldl_cons, List.foldl_nil, hlast]
    omega

theorem hexValue?_hexDigit : ∀ n < 16, hexValue? (hexDigit n) = some n := by
  decide

end Text

namespace Json

/-! ## Blanks -/

/-- Some characters stand between two tokens. -/
def Gap (cs : List Char) : Prop :=
  ∀ c ∈ cs, isGap c = true

theorem Gap.nil : Gap [] :=
  fun _ h => by cases h

/-- Blanks are passed over. -/
theorem skipGap_append {gap : List Char} (h : Gap gap) (cs : List Char) : skipGap (gap ++ cs) = skipGap cs :=
  List.dropWhile_append_of_pos h

/-- A text that starts with a token is left as it is. -/
theorem skipGap_cons {c : Char} (h : isGap c = false) (cs : List Char) : skipGap (c :: cs) = c :: cs := by
  rw [skipGap, List.dropWhile_cons_of_neg (by simp [h])]

/-! ## Numbers -/

/-- No text that follows goes on with a number. -/
def Delimited (rest : List Char) : Prop :=
  ∀ c cs, rest = c :: cs → c.isDigit = false ∧ c ≠ '.' ∧ c ≠ 'e' ∧ c ≠ 'E'

theorem Delimited.nil : Delimited [] :=
  fun _ _ h => by cases h

theorem Delimited.cons {c : Char} (h : c.isDigit = false ∧ c ≠ '.' ∧ c ≠ 'e' ∧ c ≠ 'E') (cs : List Char) :
    Delimited (c :: cs) := by
  rintro d ds heq
  cases heq
  exact h

/-- A blank ends a number. -/
theorem Delimited.gap {gap : List Char} (h : Gap gap) {rest : List Char} (hrest : Delimited rest) :
    Delimited (gap ++ rest) := by
  cases gap with
  | nil => exact hrest
  | cons c gap =>
    have hc := h c List.mem_cons_self
    simp only [isGap, Bool.or_eq_true, beq_iff_eq] at hc
    rcases hc with ((rfl | rfl) | rfl) | rfl <;> exact .cons (by decide) _

theorem digits?_append {ds rest : List Char} (hne : ds ≠ []) (hds : ∀ d ∈ ds, d.isDigit = true)
    (hrest : Delimited rest) : digits? (ds ++ rest) = some (ds, rest) := by
  have hnone : rest.takeWhile Char.isDigit = [] ∧ rest.dropWhile Char.isDigit = rest := by
    cases rest with
    | nil => exact ⟨rfl, rfl⟩
    | cons c cs => simp [(hrest c cs rfl).1]
  obtain ⟨d, ds', rfl⟩ := List.exists_cons_of_ne_nil hne
  rw [digits?, List.takeWhile_append_of_pos hds, List.dropWhile_append_of_pos hds, hnone.1, hnone.2, List.append_nil]

theorem fraction?_of_delimited {rest : List Char} (h : Delimited rest) : fraction? rest = some ([], rest) := by
  unfold fraction?
  split
  · exact absurd rfl (h _ _ rfl).2.1
  · rfl

theorem exponent?_of_delimited {rest : List Char} (h : Delimited rest) : exponent? rest = some ([], rest) := by
  cases rest with
  | nil => rfl
  | cons c cs =>
    obtain ⟨-, -, he, hE⟩ := h c cs rfl
    simp [exponent?, he, hE]

theorem unsigned?_decimalChars (negative : Bool) (n : Nat) {rest : List Char} (hrest : Delimited rest) :
    unsigned? negative (Text.decimalChars n ++ rest) = some (integer negative (Text.decimalChars n), rest) := by
  have hzero : ((Text.decimalChars n).length > 1 && (Text.decimalChars n).head? == some '0') = false := by
    by_cases h : (Text.decimalChars n).head? = some '0'
    · rw [Text.head_decimalChars n h]
      decide +kernel
    · rw [beq_eq_false_iff_ne.2 h, Bool.and_false]
  rw [unsigned?, digits?_append (Text.decimalChars_ne_nil n) (Text.isDigit_of_mem_decimalChars n) hrest]
  simp only [Option.bind_eq_bind, Option.bind_some, hzero, fraction?_of_delimited hrest,
    exponent?_of_delimited hrest]
  simp

/-- An integer is read from its decimal characters. -/
theorem number?_integerChars (i : Int) {rest : List Char} (hrest : Delimited rest) :
    number? (Text.integerChars i ++ rest) = some (.int i, rest) := by
  unfold Text.integerChars
  split
  · rename_i hneg
    rw [List.cons_append, number?, unsigned?_decimalChars true _ hrest]
    simp only [integer, Text.ofDigits_decimalChars]
    rw [if_pos trivial, if_neg (by omega)]
    congr 3
    omega
  · rename_i hpos
    have hnumber : number? (Text.decimalChars i.natAbs ++ rest) =
        unsigned? false (Text.decimalChars i.natAbs ++ rest) := by
      obtain ⟨d, ds, hds⟩ := List.exists_cons_of_ne_nil (Text.decimalChars_ne_nil i.natAbs)
      have hdigit := Text.isDigit_of_mem_decimalChars i.natAbs d (by rw [hds]; exact List.mem_cons_self)
      rw [hds, List.cons_append]
      unfold number?
      split
      · rename_i heq
        cases heq
        cases hdigit
      · rfl
    rw [hnumber, unsigned?_decimalChars false _ hrest]
    simp only [integer, Text.ofDigits_decimalChars, Bool.false_eq_true, if_false]
    congr 3
    omega

/-! ## Literals -/

/-- What a literal gives that starts with one more piece. -/
def withPiece (p : Piece) (found : Option (List Piece × List Char)) : Option (List Piece × List Char) :=
  found.map fun (ps, rest) => (p :: ps, rest)

theorem pieces?_escaped {x c : Char} (h : escaped? x = some c) (hx : x ≠ 'u') (rest : List Char) :
    pieces? ('\\' :: x :: rest) = withPiece (.char c) (pieces? rest) := by
  rw [pieces?]
  · rw [h]
    cases pieces? rest <;> rfl
  · exact fun a b c d more hu _ => hx hu

theorem pieces?_unit {a b c d : Char} {n : Nat} (h : codeUnit? a b c d = some n) (rest : List Char) :
    pieces? ('\\' :: 'u' :: a :: b :: c :: d :: rest) = withPiece (.unit n) (pieces? rest) := by
  rw [pieces?, h]
  cases pieces? rest <;> rfl

theorem pieces?_plain {c : Char} (hquote : c ≠ '"') (hslash : c ≠ '\\') (hcontrol : ¬ c.toNat < 0x20)
    (rest : List Char) : pieces? (c :: rest) = withPiece (.char c) (pieces? rest) := by
  rw [pieces?]
  · simp only [hcontrol, hslash, decide_false, Bool.or_self, Bool.false_eq_true, if_false]
    cases pieces? rest <;> rfl
  all_goals simp [hquote, hslash]

/-- A control character is the code unit that its two last hexadecimal digits write. -/
theorem codeUnit?_control {n : Nat} (h : n < 0x20) :
    codeUnit? '0' '0' (Text.hexDigit (n / 16)) (Text.hexDigit (n % 16)) = some n := by
  have hhigh := Text.hexValue?_hexDigit (n / 16) (by omega)
  have hlow := Text.hexValue?_hexDigit (n % 16) (by omega)
  have hzero : Text.hexValue? '0' = some 0 := by decide
  simp only [codeUnit?, hzero, hhigh, hlow, Option.bind_eq_bind, Option.bind_some, Option.pure_def, Option.some.injEq]
  omega

/-- A character is written as an escape of one letter, as an escaped code unit, or as it is. -/
theorem writtenChar_cases (c : Char) :
    (∃ x, escaped? x = some c ∧ x ≠ 'u' ∧ writtenChar c = ['\\', x]) ∨
      (c.toNat < 0x20 ∧
        writtenChar c = ['\\', 'u', '0', '0', Text.hexDigit (c.toNat / 16), Text.hexDigit (c.toNat % 16)]) ∨
      (c ≠ '"' ∧ c ≠ '\\' ∧ ¬ c.toNat < 0x20 ∧ writtenChar c = [c]) := by
  unfold writtenChar
  split_ifs with quote slash back feed line turn tab control
  · exact .inl ⟨'"', by rw [quote]; rfl, by decide, rfl⟩
  · exact .inl ⟨'\\', by rw [slash]; rfl, by decide, rfl⟩
  · exact .inl ⟨'b', by rw [back]; rfl, by decide, rfl⟩
  · exact .inl ⟨'f', by rw [feed]; rfl, by decide, rfl⟩
  · exact .inl ⟨'n', by rw [line]; rfl, by decide, rfl⟩
  · exact .inl ⟨'r', by rw [turn]; rfl, by decide, rfl⟩
  · exact .inl ⟨'t', by rw [tab]; rfl, by decide, rfl⟩
  · exact .inr (.inl ⟨control, rfl⟩)
  · exact .inr (.inr ⟨quote, slash, control, rfl⟩)

/-- A written character is one piece, and that denotes the character. -/
theorem exists_piece (c : Char) : ∃ p, (∀ rest, pieces? (writtenChar c ++ rest) = withPiece p (pieces? rest)) ∧
    ∀ ps, characters? (p :: ps) = (characters? ps).map (c :: ·) := by
  rcases writtenChar_cases c with ⟨x, hx, hu, hc⟩ | ⟨hcontrol, hc⟩ | ⟨hquote, hslash, hcontrol, hc⟩
  · exact ⟨.char c, fun rest => by rw [hc]; exact pieces?_escaped hx hu rest, fun _ => rfl⟩
  · refine ⟨.unit c.toNat, fun rest => by rw [hc]; exact pieces?_unit (codeUnit?_control hcontrol) rest, fun ps => ?_⟩
    -- a control character is far from the surrogates
    have hhigh : isHigh c.toNat = false := by
      simp only [isHigh, Bool.and_eq_false_iff, decide_eq_false_iff_not]
      omega
    have hlow : isLow c.toNat = false := by
      simp only [isLow, Bool.and_eq_false_iff, decide_eq_false_iff_not]
      omega
    conv => lhs; unfold characters?
    simp only [hhigh, hlow, Bool.false_eq_true, if_false, Char.ofNat_toNat]
  · exact ⟨.char c, fun rest => by rw [hc]; exact pieces?_plain hquote hslash hcontrol rest, fun _ => rfl⟩

theorem pieces?_written (cs rest : List Char) : ∃ ps, characters? ps = some cs ∧
    pieces? (cs.flatMap writtenChar ++ '"' :: rest) = some (ps, rest) := by
  induction cs with
  | nil => exact ⟨[], rfl, by rw [List.flatMap_nil, List.nil_append, pieces?]⟩
  | cons c cs ih =>
    obtain ⟨ps, hps, hrest⟩ := ih
    obtain ⟨p, hp, hc⟩ := exists_piece c
    refine ⟨p :: ps, by rw [hc, hps]; rfl, ?_⟩
    rw [List.flatMap_cons, List.append_assoc, hp, hrest]
    rfl

/-- A written text is read back from after its opening quote. -/
theorem literal?_written (s : String) (rest : List Char) :
    literal? (s.toList.flatMap writtenChar ++ '"' :: rest) = some (some s, rest) := by
  obtain ⟨ps, hps, hrest⟩ := pieces?_written s.toList rest
  simp only [literal?, hrest, hps, Option.map_some, String.ofList_toList]

end Json

end CrossIndex
