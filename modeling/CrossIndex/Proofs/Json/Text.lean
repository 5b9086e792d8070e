/-
JSON text is read as it was written. `Reads` says that a reader takes in a text as something, whatever
delimits it; values, items and members are put together from such texts with any blanks between their
tokens. Main statement: a value without odd numbers and without strings that denote no text is read back
from its text on one line and from its text over several lines.
-/
import CrossIndex.Json.Printer
import CrossIndex.Proofs.Json.Token

namespace CrossIndex.Json

/-! ## Blanks in front -/

theorem value?_append {gap : List Char} (h : Gap gap) (fuel : Nat) (cs : List Char) :
    value? fuel (gap ++ cs) = value? fuel cs := by
  cases fuel with
  | zero => rfl
  | succ fuel => rw [value?, value?, skipGap_append h]

theorem items?_append {gap : List Char} (h : Gap gap) (fuel : Nat) (cs : List Char) :
    items? fuel (gap ++ cs) = items? fuel cs := by
  cases fuel with
  | zero => rfl
  | succ fuel => rw [items?, items?, value?_append h]

theorem members?_append {gap : List Char} (h : Gap gap) (fuel : Nat) (cs : List Char) :
    members? fuel (gap ++ cs) = members? fuel cs := by
  cases fuel with
  | zero => rfl
  | succ fuel => rw [members?, members?, skipGap_append h]

/-! ## Reading a text -/

/-- A text starts with a token, and not with the end of an array or object. -/
def Opens (cs : List Char) : Prop :=
  ∃ c more, cs = c :: more ∧ isGap c = false ∧ c ≠ ']' ∧ c ≠ '\x7d'

theorem Opens.append {cs : List Char} (h : Opens cs) (rest : List Char) : Opens (cs ++ rest) := by
  obtain ⟨c, more, rfl, hc⟩ := h
  exact ⟨c, more ++ rest, rfl, hc⟩

theorem Opens.length_pos {cs : List Char} (h : Opens cs) : 0 < cs.length := by
  obtain ⟨c, more, rfl, -⟩ := h
  exact Nat.succ_pos _

/-- A reader that runs on fuel takes in a text as something, and leaves what delimits it. -/
structure Reads {β : Type} (read : Nat → List Char → Option (β × List Char)) (cs : List Char) (b : β) : Prop where
  opens : Opens cs
  reads : ∀ fuel rest, 2 * cs.length ≤ fuel → Delimited rest → read fuel (cs ++ rest) = some (b, rest)

/-- No text that starts with a token asks for a reader without fuel. -/
theorem Reads.of_succ {β : Type} {read : Nat → List Char → Option (β × List Char)} {cs : List Char} {b : β}
    (hopens : Opens cs) (h : ∀ fuel rest, 2 * cs.length ≤ fuel + 1 → Delimited rest →
      read (fuel + 1) (cs ++ rest) = some (b, rest)) : Reads read cs b where
  opens := hopens
  reads fuel rest hfuel hrest := by
    have := hopens.length_pos
    obtain ⟨fuel, rfl⟩ : ∃ n, fuel = n + 1 := ⟨fuel - 1, by omega⟩
    exact h fuel rest hfuel hrest

/-! ## Single tokens -/

theorem reads_null : Reads value? ['n', 'u', 'l', 'l'] .null :=
  .of_succ ⟨'n', _, rfl, by decide⟩ fun fuel rest _ _ => by
    simp [value?, skipGap_cons (show isGap 'n' = false by decide), word?]

theorem reads_true : Reads value? ['t', 'r', 'u', 'e'] (.bool true) :=
  .of_succ ⟨'t', _, rfl, by decide⟩ fun fuel rest _ _ => by
    simp [value?, skipGap_cons (show isGap 't' = false by decide), word?]

theorem reads_false : Reads value? ['f', 'a', 'l', 's', 'e'] (.bool false) :=
  .of_succ ⟨'f', _, rfl, by decide⟩ fun fuel rest _ _ => by
    simp [value?, skipGap_cons (show isGap 'f' = false by decide), word?]

/-- What an integer starts with neither is a blank nor starts or ends anything else. -/
theorem exists_integerChars (i : Int) : ∃ c more, Text.integerChars i = c :: more ∧
    c ∉ [' ', '\t', '\n', '\r', ']', '\x7d', '"', '[', '\x7b', 'n', 't', 'f'] := by
  unfold Text.integerChars
  split
  · exact ⟨'-', _, rfl, by decide⟩
  · obtain ⟨d, ds, hds⟩ := List.exists_cons_of_ne_nil (Text.decimalChars_ne_nil i.natAbs)
    have hdigit := Text.isDigit_of_mem_decimalChars i.natAbs d (by rw [hds]; exact List.mem_cons_self)
    have hnone : [' ', '\t', '\n', '\r', ']', '\x7d', '"', '[', '\x7b', 'n', 't', 'f'].all (!·.isDigit) = true := by
      decide
    refine ⟨d, ds, hds, fun hd => ?_⟩
    have := List.all_eq_true.1 hnone d hd
    rw [hdigit] at this
    cases this

theorem reads_int (i : Int) : Reads value? (Text.integerChars i) (.int i) := by
  obtain ⟨c, more, hc, hother⟩ := exists_integerChars i
  simp only [List.mem_cons, List.not_mem_nil, or_false, not_or] at hother
  obtain ⟨hspace, htab, hline, hturn, hbracket, hbrace, hquote, harr, hobj, hnull, htrue, hfalse⟩ := hother
  have hgap : isGap c = false := by simp [isGap, hspace, htab, hline, hturn]
  refine .of_succ ⟨c, more, hc, hgap, hbracket, hbrace⟩ fun fuel rest _ hrest => ?_
  have hnumber := number?_integerChars i hrest
  rw [hc, List.cons_append] at hnumber ⊢
  simp only [value?, skipGap_cons hgap, if_neg hquote, if_neg harr, if_neg hobj, if_neg hnull, if_neg htrue,
    if_neg hfalse]
  exact hnumber

theorem reads_text (s : String) : Reads value? (written s) (text s) :=
  .of_succ ⟨'"', _, rfl, by decide⟩ fun fuel rest _ _ => by
    simp [value?, written, skipGap_cons (show isGap '"' = false by decide), literal?_written, text]

/-! ## Arrays -/

/-- What is read of the items of an array when the first one has been read. -/
theorem Reads.items?_eq {cs tail : List Char} {j : Json} {fuel : Nat} (h : Reads value? cs j)
    (hfuel : 2 * cs.length ≤ fuel) (htail : Delimited tail) : items? (fuel + 1) (cs ++ tail) =
      match skipGap tail with
      | ',' :: rest => (items? fuel rest).bind fun (items, rest) => some (j :: items, rest)
      | ']' :: rest => some ([j], rest)
      | _ => none := by
  rw [items?, h.reads fuel tail hfuel htail]
  rfl

/-- The last item stands before the closing bracket. -/
theorem Reads.lastItem {cs gap : List Char} {j : Json} (h : Reads value? cs j) (hgap : Gap gap) :
    Reads items? (cs ++ (gap ++ [']'])) [j] :=
  .of_succ (h.opens.append _) fun fuel rest hfuel _ => by
    simp only [List.length_append, List.length_singleton] at hfuel
    have hend : Delimited (gap ++ ']' :: rest) := .gap hgap (.cons (by decide) rest)
    have htext : cs ++ (gap ++ [']']) ++ rest = cs ++ (gap ++ ']' :: rest) := by simp
    rw [htext, h.items?_eq (by omega) hend, skipGap_append hgap, skipGap_cons (by decide)]
    rfl

/-- Any other item stands before a comma and the items after it. -/
theorem Reads.item {cs gap more : List Char} {j : Json} {items : List Json} (h : Reads value? cs j) (hgap : Gap gap)
    (hmore : Reads items? more items) : Reads items? (cs ++ ',' :: (gap ++ more)) (j :: items) :=
  .of_succ (h.opens.append _) fun fuel rest hfuel hrest => by
    simp only [List.length_append, List.length_cons] at hfuel
    have htext : cs ++ ',' :: (gap ++ more) ++ rest = cs ++ ',' :: (gap ++ (more ++ rest)) := by simp
    have hitems := hmore.reads fuel rest (by omega) hrest
    rw [htext, h.items?_eq (by omega) (.cons (by decide) _), skipGap_cons (by decide)]
    simp only [items?_append hgap, hitems, Option.bind_some]

theorem reads_arr_nil : Reads value? ['[', ']'] (.arr []) :=
  .of_succ ⟨'[', _, rfl, by decide⟩ fun fuel rest _ _ => by
    simp [value?, skipGap_cons (show isGap '[' = false by decide), skipGap_cons (show isGap ']' = false by decide)]

theorem Reads.arr {cs gap : List Char} {items : List Json} (h : Reads items? cs items) (hgap : Gap gap) :
    Reads value? ('[' :: (gap ++ cs)) (.arr items) :=
  .of_succ ⟨'[', _, rfl, by decide⟩ fun fuel rest hfuel hrest => by
    simp only [List.length_append, List.length_cons] at hfuel
    have hitems := h.reads fuel rest (by omega) hrest
    obtain ⟨c, more, hc, hfirst, hbracket, -⟩ := h.opens.append rest
    rw [hc] at hitems
    rw [List.cons_append, List.append_assoc, hc, value?, skipGap_cons (by decide)]
    simp only [Char.reduceEq, if_false, if_true, skipGap_append hgap, skipGap_cons hfirst]
    split
    · rename_i heq
      cases heq
      exact absurd rfl hbracket
    · rw [hitems]
      rfl

/-! ## Objects -/

/-- A member as it is written: its name, a colon, and after some blanks the text of its value. -/
def member (lead : List Char) (name : String) (cs : List Char) : List Char :=
  written name ++ ':' :: (lead ++ cs)

theorem opens_member (lead : List Char) (name : String) (cs : List Char) : Opens (member lead name cs) :=
  ⟨'"', _, rfl, by decide⟩

theorem length_le_member (lead : List Char) (name : String) (cs : List Char) :
    cs.length + 1 ≤ (member lead name cs).length := by
  simp only [member, List.length_append, List.length_cons]
  omega

/-- What is read of the members of an object when the first one has been read. -/
theorem Reads.members?_eq {cs lead tail : List Char} {j : Json} {fuel : Nat} (name : String) (h : Reads value? cs j)
    (hlead : Gap lead) (hfuel : 2 * cs.length ≤ fuel) (htail : Delimited tail) :
    members? (fuel + 1) (member lead name cs ++ tail) =
      match skipGap tail with
      | ',' :: rest => (members? fuel rest).bind fun (members, rest) => some ((some name, j) :: members, rest)
      | '\x7d' :: rest => some ([(some name, j)], rest)
      | _ => none := by
  have htext : member lead name cs ++ tail =
      '"' :: (name.toList.flatMap writtenChar ++ '"' :: ':' :: (lead ++ (cs ++ tail))) := by
    simp [member, written]
  rw [members?, htext, skipGap_cons (by decide)]
  simp only [literal?_written, Option.bind_eq_bind, Option.bind_some]
  rw [skipGap_cons (by decide)]
  simp only [value?_append hlead, h.reads fuel tail hfuel htail, Option.bind_some]
  rfl

/-- The last member stands before the closing brace. -/
theorem Reads.lastMember {cs lead gap : List Char} {j : Json} (name : String) (h : Reads value? cs j)
    (hlead : Gap lead) (hgap : Gap gap) : Reads members? (member lead name cs ++ (gap ++ ['\x7d'])) [(some name, j)] :=
  .of_succ ((opens_member ..).append _) fun fuel rest hfuel _ => by
    have := length_le_member lead name cs
    simp only [List.length_append, List.length_singleton] at hfuel
    have hend : Delimited (gap ++ '\x7d' :: rest) := .gap hgap (.cons (by decide) rest)
    have htext : member lead name cs ++ (gap ++ ['\x7d']) ++ rest = member lead name cs ++ (gap ++ '\x7d' :: rest) := by
      simp
    rw [htext, h.members?_eq name hlead (by omega) hend, skipGap_append hgap, skipGap_cons (by decide)]
    rfl

/-- Any other member stands before a comma and the members after it. -/
theorem Reads.member {cs lead gap more : List Char} {j : Json} {members : List (Option String × Json)} (name : String)
    (h : Reads value? cs j) (hlead : Gap lead) (hgap : Gap gap) (hmore : Reads members? more members) :
    Reads members? (Json.member lead name cs ++ ',' :: (gap ++ more)) ((some name, j) :: members) :=
  .of_succ ((opens_member ..).append _) fun fuel rest hfuel hrest => by
    have := length_le_member lead name cs
    simp only [List.length_append, List.length_cons] at hfuel
    have htext : Json.member lead name cs ++ ',' :: (gap ++ more) ++ rest =
        Json.member lead name cs ++ ',' :: (gap ++ (more ++ rest)) := by simp
    have hmembers := hmore.reads fuel rest (by omega) hrest
    rw [htext, h.members?_eq name hlead (by omega) (.cons (by decide) _), skipGap_cons (by decide)]
    simp only [members?_append hgap, hmembers, Option.bind_some]

theorem reads_obj_nil : Reads value? ['\x7b', '\x7d'] (.obj []) :=
  .of_succ ⟨'\x7b', _, rfl, by decide⟩ fun fuel rest _ _ => by
    simp [value?, skipGap_cons (show isGap '\x7b' = false by decide),
      skipGap_cons (show isGap '\x7d' = false by decide)]

theorem Reads.obj {cs gap : List Char} {members : List (Option String × Json)} (h : Reads members? cs members)
    (hgap : Gap gap) : Reads value? ('\x7b' :: (gap ++ cs)) (.obj members) :=
  .of_succ ⟨'\x7b', _, rfl, by decide⟩ fun fuel rest hfuel hrest => by
    simp only [List.length_append, List.length_cons] at hfuel
    have hmembers := h.reads fuel rest (by omega) hrest
    obtain ⟨c, more, hc, hfirst, -, hbrace⟩ := h.opens.append rest
    rw [hc] at hmembers
    rw [List.cons_append, List.append_assoc, hc, value?, skipGap_cons (by decide)]
    simp only [Char.reduceEq, if_false, if_true, skipGap_append hgap, skipGap_cons hfirst]
    split
    · rename_i heq
      cases heq
      exact absurd rfl hbrace
    · rw [hmembers]
      rfl

/-! ## What the printers write -/

/-- Items after a comma and some blanks each. -/
def itemsAfter (gap : List Char) (write : Json → List Char) (items : List Json) : List Char :=
  items.flatMap fun j => ',' :: (gap ++ write j)

/-- Members after a comma and some blanks each. -/
def membersAfter (gap lead : List Char) (write : Json → List Char) (members : List (String × Json)) : List Char :=
  members.flatMap fun m => ',' :: (gap ++ member lead m.1 (write m.2))

theorem reads_items {gap close : List Char} (hgap : Gap gap) (hclose : Gap close) {write : Json → List Char} :
    ∀ {items : List Json} {item : Json}, (∀ j ∈ item :: items, Reads value? (write j) j) →
      Reads items? (write item ++ (itemsAfter gap write items ++ (close ++ [']']))) (item :: items)
  | [], item, h => (h item List.mem_cons_self).lastItem hclose
  | next :: items, item, h => by
    have hmore := reads_items hgap hclose fun j hj => h j (List.mem_cons_of_mem item hj)
    have hitem := (h item List.mem_cons_self).item hgap hmore
    simpa [itemsAfter] using hitem

theorem reads_members {gap lead close : List Char} (hgap : Gap gap) (hlead : Gap lead) (hclose : Gap close)
    {write : Json → List Char} : ∀ {members : List (String × Json)} {first : String × Json},
    (∀ m ∈ first :: members, Reads value? (write m.2) m.2) →
      Reads members? (member lead first.1 (write first.2) ++
        (membersAfter gap lead write members ++ (close ++ ['\x7d'])))
        ((first :: members).map fun m => (some m.1, m.2))
  | [], first, h => (h first List.mem_cons_self).lastMember first.1 hlead hclose
  | next :: members, first, h => by
    have hmore := reads_members hgap hlead hclose fun m hm => h m (List.mem_cons_of_mem first hm)
    have hmember := (h first List.mem_cons_self).member first.1 hlead hgap hmore
    simpa [membersAfter] using hmember

theorem compactItems_eq (items : List Json) : compactItems items = itemsAfter [] compact items := by
  induction items with
  | nil => rw [compactItems]; rfl
  | cons item items ih => rw [compactItems, ih]; rfl

theorem compactMembers_eq (members : List (String × Json)) :
    compactMembers (members.map fun m => (some m.1, m.2)) = membersAfter [] [] compact members := by
  induction members with
  | nil => rw [List.map_nil, compactMembers]; rfl
  | cons m members ih =>
    rw [List.map_cons, compactMembers, ih]
    simp [membersAfter, member, writtenText]

theorem prettyItems_eq (depth : Nat) (items : List Json) :
    prettyItems depth items = itemsAfter (newline depth) (pretty depth) items := by
  induction items with
  | nil => rw [prettyItems]; rfl
  | cons item items ih => rw [prettyItems, ih]; simp [itemsAfter]

theorem prettyMembers_eq (depth : Nat) (members : List (String × Json)) :
    prettyMembers depth (members.map fun m => (some m.1, m.2)) =
      membersAfter (newline depth) [' '] (pretty depth) members := by
  induction members with
  | nil => rw [List.map_nil, prettyMembers]; rfl
  | cons m members ih =>
    rw [List.map_cons, prettyMembers, ih]
    simp [membersAfter, member, writtenText]

theorem newline_gap (depth : Nat) : Gap (newline depth) := by
  intro c hc
  rcases List.mem_cons.1 hc with rfl | hc
  · rfl
  · rw [List.eq_of_mem_replicate hc]
    rfl

/-- A way to write values that differs from another one in blanks only: those before an item, a member or
a closing bracket, which depend on the nesting depth, and those before the value of a member. -/
structure Lays (line : Nat → List Char) (lead : List Char) (write : Nat → Json → List Char) : Prop where
  line_gap : ∀ depth, Gap (line depth)
  lead_gap : Gap lead
  null : ∀ depth, write depth .null = ['n', 'u', 'l', 'l']
  bool : ∀ depth b, write depth (.bool b) = if b then ['t', 'r', 'u', 'e'] else ['f', 'a', 'l', 's', 'e']
  int : ∀ depth i, write depth (.int i) = Text.integerChars i
  text : ∀ depth s, write depth (text s) = written s
  arr_nil : ∀ depth, write depth (.arr []) = ['[', ']']
  arr_cons : ∀ depth item items, write depth (.arr (item :: items)) = '[' :: (line (depth + 1) ++
    (write (depth + 1) item ++ (itemsAfter (line (depth + 1)) (write (depth + 1)) items ++ (line depth ++ [']']))))
  object_nil : ∀ depth, write depth (object []) = ['\x7b', '\x7d']
  object_cons : ∀ depth m members, write depth (object (m :: members)) = '\x7b' :: (line (depth + 1) ++
    (member lead m.1 (write (depth + 1) m.2) ++
      (membersAfter (line (depth + 1)) lead (write (depth + 1)) members ++ (line depth ++ ['\x7d']))))

theorem compact_lays : Lays (fun _ => []) [] fun _ => compact where
  line_gap _ := .nil
  lead_gap := .nil
  null _ := by rw [compact]
  bool _ b := by cases b <;> rw [compact] <;> rfl
  int _ i := by rw [compact]
  text _ s := by rw [text, compact]; rfl
  arr_nil _ := by rw [compact]
  arr_cons _ item items := by rw [compact, compactItems_eq]; simp
  object_nil _ := by rw [object, List.map_nil, compact]
  object_cons _ m members := by
    rw [object, List.map_cons, compact, compactMembers_eq]
    simp [member, writtenText]

theorem pretty_lays : Lays newline [' '] pretty where
  line_gap := newline_gap
  lead_gap c hc := by rw [List.mem_singleton.1 hc]; rfl
  null _ := by rw [pretty]
  bool _ b := by cases b <;> rw [pretty] <;> rfl
  int _ i := by rw [pretty]
  text _ s := by rw [text, pretty]; rfl
  arr_nil _ := by rw [pretty]
  arr_cons _ item items := by rw [pretty, prettyItems_eq]; simp
  object_nil _ := by rw [object, List.map_nil, pretty]
  object_cons _ m members := by
    rw [object, List.map_cons, pretty, prettyMembers_eq]
    simp [member, writtenText]

/-- A value holds no number but integers, and all its strings and names denote texts. -/
inductive Definite : Json → Prop where
  | null : Definite .null
  | bool (b : Bool) : Definite (.bool b)
  | int (i : Int) : Definite (.int i)
  | text (s : String) : Definite (text s)
  | arr {items : List Json} (h : ∀ j ∈ items, Definite j) : Definite (.arr items)
  | object {members : List (String × Json)} (h : ∀ m ∈ members, Definite m.2) : Definite (object members)

/-- A definite value is read back however it is laid out. -/
theorem Definite.reads {line : Nat → List Char} {lead : List Char} {write : Nat → Json → List Char}
    (hw : Lays line lead write) {j : Json} (h : Definite j) : ∀ depth, Reads value? (write depth j) j := by
  induction h with
  | null => exact fun depth => hw.null depth ▸ reads_null
  | bool b =>
    intro depth
    rw [hw.bool]
    cases b
    · exact reads_false
    · exact reads_true
  | int i => exact fun depth => hw.int depth i ▸ reads_int i
  | text s => exact fun depth => hw.text depth s ▸ reads_text s
  | @arr items _ ih =>
    intro depth
    cases items with
    | nil => exact hw.arr_nil depth ▸ reads_arr_nil
    | cons item items =>
      rw [hw.arr_cons]
      have hitems := reads_items (hw.line_gap (depth + 1)) (hw.line_gap depth) fun j hj => ih j hj (depth + 1)
      exact hitems.arr (hw.line_gap (depth + 1))
  | @object members _ ih =>
    intro depth
    cases members with
    | nil => exact hw.object_nil depth ▸ reads_obj_nil
    | cons m members =>
      rw [hw.object_cons]
      have hmembers := reads_members (hw.line_gap (depth + 1)) hw.lead_gap (hw.line_gap depth) fun m hm =>
        ih m hm (depth + 1)
      exact hmembers.obj (hw.line_gap (depth + 1))

/-! ## Whole texts -/

theorem Reads.parseChars? {cs : List Char} {j : Json} (h : Reads value? cs j) : parseChars? cs = some j := by
  have hread := h.reads (2 * cs.length + 2) [] (by omega) .nil
  rw [List.append_nil] at hread
  rw [Json.parseChars?, hread]
  rfl

theorem Definite.parse?_render {j : Json} (h : Definite j) : parse? j.render = some j := by
  rw [parse?, render, String.toList_ofList]
  exact (h.reads compact_lays 0).parseChars?

theorem Definite.parse?_renderPretty {j : Json} (h : Definite j) : parse? j.renderPretty = some j := by
  rw [parse?, renderPretty, String.toList_ofList]
  exact (h.reads pretty_lays 0).parseChars?

end CrossIndex.Json
