/-
Path texts as bytes. A byte that starts a character never occurs inside of one, so a text ends with another one byte
for byte exactly if it does so character by character; and texts are in the order of their bytes.
-/
import CrossIndex.Path.Suffix
import CrossIndex.Proofs.Path.Normal

namespace CrossIndex.Path

/-- The bytes of some characters. -/
def encoded (cs : List Char) : List UInt8 :=
  cs.flatMap String.utf8EncodeChar

theorem bytes_eq (path : String) : bytes path = encoded path.toList := by
  rw [bytes, String.toUTF8_eq_toByteArray, ← String.utf8Encode_toList, List.utf8Encode, List.data_toByteArray]
  rfl

theorem encoded_cons (c : Char) (cs : List Char) : encoded (c :: cs) = String.utf8EncodeChar c ++ encoded cs :=
  List.flatMap_cons

theorem encoded_eq_nil {cs : List Char} : encoded cs = [] ↔ cs = [] := by
  cases cs with
  | nil => exact iff_of_true rfl rfl
  | cons c cs => simp [encoded_cons, String.utf8EncodeChar_ne_nil]

theorem encoded_injective {xs ys : List Char} (h : encoded xs = encoded ys) : xs = ys := by
  refine String.ofList_injective (String.toByteArray_inj.1 ?_)
  rw [String.toByteArray_ofList, String.toByteArray_ofList]
  exact congrArg List.toByteArray h

/-- What the bytes of a text end with, if it is the bytes of some characters, are the bytes of its last characters. -/
theorem isSuffix_of_append_encoded : ∀ {ys xs : List Char} {front : List UInt8}, front ++ encoded xs = encoded ys →
    xs <:+ ys
  | [], xs, front, h => by
    have hnil : encoded xs = [] := (List.append_eq_nil_iff.1 h).2
    obtain rfl := encoded_eq_nil.1 hnil
    exact List.suffix_refl []
  | y :: ys, xs, front, h => by
    rw [encoded_cons, List.append_eq_append_iff] at h
    rcases h with ⟨rest, hy, hxs⟩ | ⟨rest, rfl, hys⟩
    · rcases front with _ | ⟨b, front⟩
      · rw [List.nil_append] at hy
        rw [← hy, ← encoded_cons] at hxs
        obtain rfl := encoded_injective hxs
        exact List.suffix_refl _
      rcases rest with _ | ⟨b', rest⟩
      · rw [List.nil_append] at hxs
        obtain rfl := encoded_injective hxs
        exact List.suffix_cons y _
      · rcases xs with _ | ⟨x, xs⟩
        · cases hxs
        -- the cut lies inside of a character, but the byte after it starts one
        · exfalso
          have hlength : front.length + 1 < (String.utf8EncodeChar y).length := by simp [hy]
          have hinside : ¬ (String.utf8EncodeChar y)[front.length + 1].IsUTF8FirstByte := by
            rw [UInt8.isUTF8FirstByte_getElem_utf8EncodeChar]
            omega
          obtain ⟨first, more, hx⟩ := List.exists_cons_of_ne_nil (String.utf8EncodeChar_ne_nil (c := x))
          have hstart : first.IsUTF8FirstByte := by
            have := UInt8.isUTF8FirstByte_getElem_zero_utf8EncodeChar (c := x)
            simpa only [hx, List.getElem_cons_zero] using this
          rw [encoded_cons, hx] at hxs
          obtain rfl := (List.cons.inj hxs).1
          have hbyte : (String.utf8EncodeChar y)[front.length + 1] = first := by simp [hy]
          exact hinside (hbyte ▸ hstart)
    · exact (isSuffix_of_append_encoded hys.symm).trans (List.suffix_cons y ys)

theorem encoded_isSuffix {xs ys : List Char} : encoded xs <:+ encoded ys ↔ xs <:+ ys := by
  constructor
  · rintro ⟨front, h⟩
    exact isSuffix_of_append_encoded h
  · rintro ⟨front, rfl⟩
    exact ⟨encoded front, (List.flatMap_append).symm⟩

/-! ## The order of bytes -/

theorem utf8EncodeChar_lt {c d : Char} (h : c < d) (xs ys : List UInt8) :
    String.utf8EncodeChar c ++ xs < String.utf8EncodeChar d ++ ys := by
  have hcd : c.val.toNat < d.val.toNat := h
  have hd : d.val.toNat < 1114112 := by
    have := d.valid
    unfold UInt32.isValidChar Nat.isValidChar at this
    omega
  -- each byte but the first holds six bits, the rest of one more division by 64
  have htwice : ∀ n, n / 4096 = n / 64 / 64 := by omega
  have hthrice : ∀ n, n / 262144 = n / 64 / 64 / 64 := by omega
  unfold String.utf8EncodeChar
  simp only [htwice, hthrice]
  split_ifs <;> simp only [List.cons_append, List.cons_lt_cons_iff, UInt8.lt_iff_toNat_lt, ← UInt8.toNat_inj,
    UInt8.toNat_ofNat'] <;> simp (disch := omega) only [Nat.mod_eq_of_lt] <;> omega

theorem encoded_lt {xs ys : List Char} (h : xs < ys) : encoded xs < encoded ys := by
  induction h with
  | nil =>
    obtain ⟨b, rest, hb⟩ := List.exists_cons_of_ne_nil (mt encoded_eq_nil.1 (List.cons_ne_nil _ _))
    rw [hb]
    exact List.nil_lt_cons b rest
  | rel h => exact utf8EncodeChar_lt h _ _
  | cons _ ih =>
    rw [encoded_cons, encoded_cons]
    exact List.append_left_lt ih

theorem bytes_lt {a b : String} (h : a < b) : bytes a < bytes b := by
  rw [bytes_eq, bytes_eq]
  exact encoded_lt h

/-! ## Ending with a path -/

theorem getElem?_before_suffix {α : Type} (front u : List α) (b : α) :
    (front ++ b :: u)[(front ++ b :: u).length - u.length - 1]? = some b := by
  have hindex : (front ++ b :: u).length - u.length - 1 = front.length := by
    rw [List.length_append, List.length_cons]
    omega
  rw [hindex, List.getElem?_append_right (Nat.le_refl _), Nat.sub_self, List.getElem?_cons_zero]

theorem cons_isSuffix_iff {α : Type} {u v : List α} {b : α} :
    b :: u <:+ v ↔ u.length < v.length ∧ u <:+ v ∧ v[v.length - u.length - 1]? = some b := by
  constructor
  · rintro ⟨front, rfl⟩
    refine ⟨?_, ⟨front ++ [b], by simp⟩, getElem?_before_suffix front u b⟩
    rw [List.length_append, List.length_cons]
    omega
  · rintro ⟨hlength, ⟨front, rfl⟩, hb⟩
    rcases List.eq_nil_or_concat front with rfl | ⟨front, b', rfl⟩
    · exact absurd hlength (Nat.lt_irrefl _)
    · rw [List.concat_eq_append, List.append_assoc, List.singleton_append, getElem?_before_suffix] at hb
      obtain rfl := Option.some.inj hb
      exact ⟨front, by simp⟩

/-- A path ends at a wanted one if it is that path or has it after a slash at its end. -/
theorem endsAt_iff {known wanted : String} :
    endsAt known wanted = true ↔ known = wanted ∨ '/' :: wanted.toList <:+ known.toList := by
  have hslash : slashByte :: bytes wanted = encoded ('/' :: wanted.toList) := by
    rw [encoded_cons, bytes_eq]
    rfl
  rw [← encoded_isSuffix, ← hslash, ← bytes_eq, cons_isSuffix_iff]
  simp [endsAt, and_assoc]

end CrossIndex.Path
