/-
What a name means at a place. The candidates are the references to and declarations of entities of that name in
the matching files. They are put in order before one is chosen, so the first that is found among them is the
least one, and the first of the nearest ones is the least of those. Main statement: a name resolves to the least
candidate at the position, else to the nearest one, or without a line to the least declaration, and else to the
declaration of the first entity of that name.
-/
import CrossIndex.Proofs.Closure.Element
import CrossIndex.Proofs.Query.Stale
import CrossIndex.Proofs.Update.Intake
import CrossIndex.Query.Resolution
import Mathlib.Data.Prod.Lex

namespace CrossIndex

/-! ## Least elements -/

/-- An element has a property and comes after none that has it. -/
structure Least {α : Type} (order : α → α → Ordering) (P : α → Prop) (a : α) : Prop where
  holds : P a
  le : ∀ b, P b → (order a b).isLE

section Least

variable {α : Type} {order below : α → α → Ordering} {p : α → Bool} {a : α} {l : List α}

/-- What is found first in a sorted list is the least of its sort. -/
theorem least_of_find? [Std.ReflCmp order] (hl : l.Pairwise fun a b => (order a b).isLE) (h : l.find? p = some a) :
    Least order (fun b => b ∈ l ∧ p b = true) a := by
  obtain ⟨hp, before, after, rfl, hbefore⟩ := List.find?_eq_some_iff_append.1 h
  refine ⟨⟨by simp, hp⟩, fun b ⟨hb, hpb⟩ => ?_⟩
  rcases List.mem_append.1 hb with hb | hb
  · have := hbefore b hb
    simp [hpb] at this
  · rcases List.mem_cons.1 hb with rfl | hb
    · exact Std.ReflCmp.isLE_rfl
    · exact (List.pairwise_cons.1 (List.pairwise_append.1 hl).2.1).1 b hb

namespace Store

theorem firstLeast_eq_none : firstLeast order l = none ↔ l = [] := by
  cases l with
  | nil => simp [firstLeast]
  | cons a rest =>
    simp only [firstLeast, reduceCtorEq, iff_false]
    split
    · simp
    · split <;> simp

/-- In a sorted list the first of the least elements in another order comes first among them in both. -/
theorem least_of_firstLeast [Std.TransCmp order] [Std.ReflCmp below] (hl : l.Pairwise fun a b => (below a b).isLE)
    (h : firstLeast order l = some a) : Least (compareLex order below) (· ∈ l) a := by
  induction l generalizing a with
  | nil => cases h
  | cons x rest ih =>
    obtain ⟨hx, hrest⟩ := List.pairwise_cons.1 hl
    rw [firstLeast] at h
    cases hf : firstLeast order rest with
    | none =>
      obtain rfl := firstLeast_eq_none.1 hf
      obtain rfl := Option.some.inj h
      refine ⟨List.mem_cons_self, fun b hb => ?_⟩
      obtain rfl := List.mem_singleton.1 hb
      exact Std.ReflCmp.isLE_rfl
    | some y =>
      rw [hf] at h
      obtain ⟨hy, hleast⟩ := ih hrest hf
      have hle : ∀ b ∈ rest, (order y b).isLE := fun b hb => Ordering.isLE_left_of_isLE_then (hleast b hb)
      dsimp only at h
      split at h <;> obtain rfl := Option.some.inj h
      · rename_i hxy
        refine ⟨List.mem_cons_self, fun b hb => ?_⟩
        rcases List.mem_cons.1 hb with rfl | hb
        · exact Std.ReflCmp.isLE_rfl
        · rw [compareLex, Ordering.isLE_then_iff_and]
          exact ⟨Std.TransCmp.isLE_trans hxy (hle b hb), .inr (hx b hb)⟩
      · rename_i hxy
        refine ⟨List.mem_cons_of_mem _ hy, fun b hb => ?_⟩
        rcases List.mem_cons.1 hb with rfl | hb
        · rw [compareLex, Ordering.isLE_then_iff_or]
          refine .inl ?_
          rw [← Std.OrientedCmp.gt_iff_lt]
          simpa using hxy
        · exact hleast b hb

end Store

end Least

/-! ## Candidates -/

instance : Std.TransOrd Reference :=
  inferInstanceAs (Std.TransCmp (compareLex (compareOn Reference.pathKey) _))

/-- How near a reference is to a position: in lines, then in columns, then by its own position and entity. -/
def nearness (line column : Int) (r : Reference) : Nat ×ₗ Nat ×ₗ Int ×ₗ Int ×ₗ Int :=
  toLex ((r.line - line).natAbs, toLex ((r.column - column).natAbs, toLex (r.line, toLex (r.column, r.entity.id))))

/-- A reference lies on a line, and in a column if one is given. -/
def LiesAt (line : Int) (column : Option Int) (r : Reference) : Prop :=
  r.line = line ∧ ∀ c, column = some c → r.column = c

namespace Store

/-- A reference to an entity of a name, or the declaration of one, that lies in one of some files. -/
structure Candidate (s : Store) (name : String) (files : List SourceFile) (r : Reference) : Prop where
  inFile : ∃ f ∈ files, r.file = some f
  named : (∃ row ∈ s.references, r = s.reference row ∧ ∃ e ∈ s.entities, e.id = row.entity ∧ e.name = name) ∨
    ∃ e ∈ s.entities, e.name = name ∧ r = s.declarationReference e

/-- A reference is to an entity of a name. -/
def RefersTo (s : Store) (name : String) (r : Reference) : Prop :=
  ∃ e ∈ s.entities, e.name = name ∧ r.entity.id = e.id

/-- What a name resolves to at a place: the least candidate at the position; or else the nearest candidate, as an
approximation; without a line, the least declaration; and where none of these is there, the declaration of the
entity of that name that has the lowest id, as an approximation. -/
structure Resolves (s : Store) (name : String) (files : List SourceFile) (line column : Option Int)
    (found : Reference) : Prop where
  exact : ∀ l, line = some l → (∃ r, s.Candidate name files r ∧ LiesAt l column r) →
    Least compare (fun r => s.Candidate name files r ∧ LiesAt l column r) found ∧ found.isFuzzy = false
  nearest : ∀ l, line = some l → (∃ r, s.Candidate name files r) →
    (∀ r, s.Candidate name files r → ¬ LiesAt l column r) →
    ∃ r, found = r.asFuzzy ∧
      Least (compareLex (compareOn (nearness l (column.getD 1))) compare) (s.Candidate name files) r
  declared : line = none → (∃ r, s.Candidate name files r ∧ r.kindId = ReferenceKind.declarationId) →
    Least compare (fun r => s.Candidate name files r ∧ r.kindId = ReferenceKind.declarationId) found ∧
      found.isFuzzy = false
  first : (∀ r, s.Candidate name files r → line = none ∧ r.kindId ≠ ReferenceKind.declarationId) →
    (∃ e ∈ s.entities, e.name = name) →
    ∃ e, found = (s.declarationReference e).asFuzzy ∧
      Least (compareOn EntityRow.id) (fun e => e ∈ s.entities ∧ e.name = name) e
  null : found = Reference.null ↔ ∀ e ∈ s.entities, e.name ≠ name
  names : found ≠ Reference.null → s.RefersTo name found

variable {s : Store} {name : String} {files : List SourceFile} {r : Reference} {line : Int} {column : Option Int}

theorem isAt_iff : isAt line column r = true ↔ LiesAt line column r := by
  cases column <;> simp [isAt, LiesAt]

theorem byDistance_eq (line column : Int) : byDistance line column = compareOn (nearness line column) := by
  funext a b
  simp [byDistance, compareOn, nearness, Prod.Lex.compare_def, compareLex]

/-- Of known files one has an id exactly if the file of that id is one of them. -/
theorem any_id_iff (hs : s.Distinct) (hfiles : ∀ f ∈ files, f ∈ s.files) {id : Int} :
    (files.any fun f => f.id == id) = true ↔ ∃ f ∈ files, s.file? id = some f := by
  simp only [List.any_eq_true, beq_iff_eq]
  constructor
  · rintro ⟨f, hf, hid⟩
    exact ⟨f, hf, (file?_eq_some hs).2 ⟨hfiles f hf, hid⟩⟩
  · rintro ⟨f, hf, hfile⟩
    exact ⟨f, hf, ((file?_eq_some hs).1 hfile).2⟩

theorem any_entity?_iff (hs : s.Distinct) {p : EntityRow → Bool} {id : Int} :
    (s.entity? id).any p = true ↔ ∃ e ∈ s.entities, e.id = id ∧ p e = true := by
  simp only [Option.any_eq_true, entity?_eq_some hs, and_assoc]

theorem mem_candidates (hs : s.Sound) (hfiles : ∀ f ∈ files, f ∈ s.files) :
    r ∈ s.candidates name files ↔ s.Candidate name files r := by
  have hdecl : ∀ e : EntityRow, (e.decl.any fun p => files.any fun f => f.id == p.file) = true ↔
      ∃ f ∈ files, (s.declarationReference e).file = some f := by
    intro e
    rcases hd : e.decl with _ | p
    · simp [declarationReference, hd]
    · simp only [declarationReference, hd, Option.any_some, Option.bind_some, any_id_iff hs.toDistinct hfiles]
  simp only [candidates, List.mem_mergeSort, List.mem_append, List.mem_map, List.mem_filter, Bool.and_eq_true,
    any_id_iff hs.toDistinct hfiles, any_entity?_iff hs.toDistinct, hdecl, beq_iff_eq]
  constructor
  · rintro (⟨row, ⟨hrow, hfile, hentity⟩, rfl⟩ | ⟨e, ⟨he, hname, hfile⟩, rfl⟩)
    · exact ⟨hfile, .inl ⟨row, hrow, rfl, hentity⟩⟩
    · exact ⟨hfile, .inr ⟨e, he, hname, rfl⟩⟩
  · rintro ⟨hfile, ⟨row, hrow, rfl, hentity⟩ | ⟨e, he, hname, rfl⟩⟩
    · exact .inl ⟨row, ⟨hrow, hfile, hentity⟩, rfl⟩
    · exact .inr ⟨e, ⟨he, hname, hfile⟩, rfl⟩

theorem candidates_sorted (s : Store) (name : String) (files : List SourceFile) :
    (s.candidates name files).Pairwise fun a b => (compare a b).isLE :=
  pairwise_mergeSort_isLE _

/-- A candidate is exact, is to an entity of the name and lies at a position that counts from 1. -/
theorem Candidate.wellPlaced (hs : s.Sound) (h : s.Candidate name files r) :
    r.isFuzzy = false ∧ s.RefersTo name r ∧ 1 ≤ r.line ∧ 1 ≤ r.column := by
  obtain ⟨⟨f, -, hfile⟩, ⟨row, hrow, rfl, e, he, hid, hname⟩ | ⟨e, he, hname, rfl⟩⟩ := h
  · have hlinked := hs.references row hrow
    exact ⟨rfl, ⟨e, he, hname, hid.symm⟩, hlinked.line, hlinked.column⟩
  · refine ⟨rfl, ⟨e, he, hname, rfl⟩, ?_⟩
    rcases hs.declaredWell he with ⟨hnone, -⟩ | ⟨_, -, -, hline, hcolumn⟩
    · rw [hnone] at hfile
      cases hfile
    · exact ⟨hline, hcolumn⟩

/-! ## The choice among candidates -/

/-- Among sorted references at positions that count from 1, one at the position is picked, or the nearest one. -/
theorem pick_cases {cs : List Reference} (hsorted : cs.Pairwise fun a b => (compare a b).isLE)
    (hlines : ∀ r ∈ cs, 1 ≤ r.line) (line : Int) (column : Option Int) :
    (∃ r, pick cs line column = some r ∧ Least compare (fun r => r ∈ cs ∧ LiesAt line column r) r) ∨
      (∀ r ∈ cs, ¬ LiesAt line column r) ∧ (cs = [] ∧ pick cs line column = none ∨
        ∃ r, pick cs line column = some r.asFuzzy ∧
          Least (compareLex (compareOn (nearness line (column.getD 1))) compare) (· ∈ cs) r) := by
  have hall : (cs.filter fun r => 0 < r.line) = cs := by
    rw [List.filter_eq_self]
    intro r hr
    have := hlines r hr
    simp only [decide_eq_true_eq]
    omega
  unfold pick
  cases hexact : cs.find? (isAt line column) with
  | some r =>
    refine .inl ⟨r, rfl, ?_⟩
    simpa only [isAt_iff] using least_of_find? hsorted hexact
  | none =>
    refine .inr ⟨fun r hr hat => List.find?_eq_none.1 hexact r hr (isAt_iff.2 hat), ?_⟩
    rw [hall, byDistance_eq]
    cases hnear : firstLeast (compareOn (nearness line (column.getD 1))) cs with
    | none => exact .inl ⟨firstLeast_eq_none.1 hnear, rfl⟩
    | some r => exact .inr ⟨r, rfl, least_of_firstLeast hsorted hnear⟩

/-- The first row of a name has the lowest id. -/
theorem lookupByName_cases (hs : s.Ascending) (name : String) :
    (∀ e ∈ s.entities, e.name ≠ name) ∧ s.lookupByName name = Reference.null ∨
      ∃ e, s.lookupByName name = (s.declarationReference e).asFuzzy ∧
        Least (compareOn EntityRow.id) (fun e => e ∈ s.entities ∧ e.name = name) e := by
  unfold lookupByName
  cases hfind : s.entities.find? fun e => e.name == name with
  | none => exact .inl ⟨fun e he => by simpa using List.find?_eq_none.1 hfind e he, rfl⟩
  | some e =>
    have hsorted : s.entities.Pairwise fun a b => (compareOn EntityRow.id a b).isLE := by
      refine (List.pairwise_map.1 (List.pairwise_cons.1 hs).2).imp fun h => ?_
      rw [compareOn, Std.compare_eq_lt.2 h]
      rfl
    refine .inr ⟨e, rfl, ?_⟩
    simpa only [beq_iff_eq] using least_of_find? hsorted hfind

theorem RefersTo.ne_null (hs : s.Ascending) (h : s.RefersTo name r) : r ≠ Reference.null := by
  rintro rfl
  obtain ⟨e, he, -, hid⟩ := h
  have := hs.pos he
  have hnull : e.id = -1 := hid.symm
  omega

theorem not_refersTo (h : ∀ e ∈ s.entities, e.name ≠ name) : ¬ s.RefersTo name r := by
  rintro ⟨e, he, hname, -⟩
  exact h e he hname

theorem mem_files_of_mem_filesMatching {canon : String → String} {file : String} {f : SourceFile}
    (h : f ∈ s.filesMatching canon file) : f ∈ s.files := by
  unfold filesMatching at h
  dsimp only at h
  split at h
  · cases h
  · exact List.mem_of_mem_filter (List.mem_mergeSort.1 h)

/-- What is chosen among the candidates, in the order in which it is tried. -/
inductive Choice (s : Store) (name : String) (files : List SourceFile) (line column : Option Int) : Reference → Prop
  | exact {l : Int} {r : Reference} : line = some l →
      Least compare (fun r => s.Candidate name files r ∧ LiesAt l column r) r → Choice s name files line column r
  | nearest {l : Int} {r : Reference} : line = some l → (∀ r, s.Candidate name files r → ¬ LiesAt l column r) →
      Least (compareLex (compareOn (nearness l (column.getD 1))) compare) (s.Candidate name files) r →
      Choice s name files line column r.asFuzzy
  | declared {r : Reference} : line = none →
      Least compare (fun r => s.Candidate name files r ∧ r.kindId = ReferenceKind.declarationId) r →
      Choice s name files line column r
  | first {e : EntityRow} : (∀ r, s.Candidate name files r → line = none ∧ r.kindId ≠ ReferenceKind.declarationId) →
      Least (compareOn EntityRow.id) (fun e => e ∈ s.entities ∧ e.name = name) e →
      Choice s name files line column (s.declarationReference e).asFuzzy
  | nothing : (∀ e ∈ s.entities, e.name ≠ name) → Choice s name files line column Reference.null

/-- Without a candidate to choose, the first entity of the name is declared, if there is one. -/
theorem choice_lookupByName (ha : s.Ascending) {line : Option Int}
    (h : ∀ r, s.Candidate name files r → line = none ∧ r.kindId ≠ ReferenceKind.declarationId) :
    s.Choice name files line column (s.lookupByName name) := by
  rcases lookupByName_cases ha name with ⟨hnone, hnull⟩ | ⟨e, he, hleast⟩
  · rw [hnull]
    exact .nothing hnone
  · rw [he]
    exact .first h hleast

theorem choice_resolve (hs : s.Sound) (ha : s.Ascending) (canon : String → String) (hname : name ≠ "") (file : String)
    (line column : Option Int) :
    s.Choice name (s.filesMatching canon file) line column (s.resolve canon name file line column) := by
  have hmem : ∀ r, r ∈ s.candidates name (s.filesMatching canon file) ↔
      s.Candidate name (s.filesMatching canon file) r := fun r =>
    mem_candidates hs fun f hf => mem_files_of_mem_filesMatching hf
  have hsorted := s.candidates_sorted name (s.filesMatching canon file)
  have hempty : name.isEmpty = false := by simpa using hname
  unfold resolve
  simp only [hempty, Bool.false_eq_true, if_false]
  cases line with
  | some l =>
    rcases pick_cases hsorted (fun r hr => ((hmem r).1 hr).wellPlaced hs |>.2.2.1) l column with
      ⟨r, hpick, hleast⟩ | ⟨hnot, ⟨hnil, hpick⟩ | ⟨r, hpick, hleast⟩⟩ <;>
      simp only [hpick, Option.getD_some, Option.getD_none]
    · exact .exact rfl (by simpa only [hmem] using hleast)
    · refine choice_lookupByName ha fun r hr => ?_
      have hr' := (hmem r).2 hr
      rw [hnil] at hr'
      cases hr'
    · exact .nearest rfl (fun r hr => hnot r ((hmem r).2 hr)) (by simpa only [hmem] using hleast)
  | none =>
    cases hfind : (s.candidates name (s.filesMatching canon file)).find?
        fun r => r.kindId == ReferenceKind.declarationId with
    | some r =>
      rw [Option.getD_some]
      exact .declared rfl (by simpa only [hmem, beq_iff_eq] using least_of_find? hsorted hfind)
    | none =>
      refine choice_lookupByName ha fun r hr => ⟨rfl, ?_⟩
      simpa using List.find?_eq_none.1 hfind r ((hmem r).2 hr)

theorem Choice.null_or_refersTo (hs : s.Sound) {line column : Option Int} {found : Reference}
    (h : s.Choice name files line column found) :
    found = Reference.null ∧ (∀ e ∈ s.entities, e.name ≠ name) ∨ s.RefersTo name found := by
  cases h with
  | exact _ hleast => exact .inr (hleast.holds.1.wellPlaced hs).2.1
  | nearest _ _ hleast => exact .inr (hleast.holds.wellPlaced hs).2.1
  | declared _ hleast => exact .inr (hleast.holds.1.wellPlaced hs).2.1
  | @first e _ hleast => exact .inr ⟨e, hleast.holds.1, hleast.holds.2, rfl⟩
  | nothing hnone => exact .inl ⟨rfl, hnone⟩

/-- The ways to choose exclude each other. -/
theorem Choice.resolves (hs : s.Sound) (ha : s.Ascending) {line column : Option Int} {found : Reference}
    (h : s.Choice name files line column found) : s.Resolves name files line column found where
  exact := by
    rintro l rfl ⟨r, hr, hat⟩
    cases h with
    | exact hl hleast =>
      obtain rfl := Option.some.inj hl
      exact ⟨hleast, (hleast.holds.1.wellPlaced hs).1⟩
    | nearest hl hnot _ =>
      obtain rfl := Option.some.inj hl
      exact absurd hat (hnot r hr)
    | declared hl _ => cases hl
    | first hnot _ => cases (hnot r hr).1
    | nothing hnone => exact absurd (hr.wellPlaced hs).2.1 (not_refersTo hnone)
  nearest := by
    rintro l rfl ⟨r, hr⟩ hnot
    cases h with
    | exact hl hleast =>
      obtain rfl := Option.some.inj hl
      exact absurd hleast.holds.2 (hnot _ hleast.holds.1)
    | nearest hl _ hleast =>
      obtain rfl := Option.some.inj hl
      exact ⟨_, rfl, hleast⟩
    | declared hl _ => cases hl
    | first hnone _ => cases (hnone r hr).1
    | nothing hnone => exact absurd (hr.wellPlaced hs).2.1 (not_refersTo hnone)
  declared := by
    rintro rfl ⟨r, hr, hkind⟩
    cases h with
    | exact hl _ => cases hl
    | nearest hl _ _ => cases hl
    | declared _ hleast => exact ⟨hleast, (hleast.holds.1.wellPlaced hs).1⟩
    | first hnot _ => exact absurd hkind (hnot r hr).2
    | nothing hnone => exact absurd (hr.wellPlaced hs).2.1 (not_refersTo hnone)
  first := by
    rintro hnot ⟨e, he, hname⟩
    cases h with
    | exact hl hleast => cases hl.symm.trans (hnot _ hleast.holds.1).1
    | nearest hl _ hleast => cases hl.symm.trans (hnot _ hleast.holds).1
    | declared _ hleast => exact absurd hleast.holds.2 (hnot _ hleast.holds.1).2
    | first _ hleast => exact ⟨_, rfl, hleast⟩
    | nothing hnone => exact absurd hname (hnone e he)
  null := by
    rcases h.null_or_refersTo hs with ⟨hnull, hnone⟩ | hrefers
    · exact iff_of_true hnull hnone
    · exact iff_of_false (hrefers.ne_null ha) fun hnone => not_refersTo hnone hrefers
  names hne := (h.null_or_refersTo hs).resolve_left fun hnull => hne hnull.1

end Store

/-! ## Positions of 32 bits -/

/-- Positions of 32 bits are let in. -/
def Intake.positions : Intake :=
  ⟨fun line column => InInt32 line ∧ InInt32 column, fun line column _ => InInt32 line ∧ InInt32 column⟩

namespace Store

variable {s : Store} {name : String} {files : List SourceFile} {r : Reference}

theorem Candidate.inInt32 (hc : s.Confined .positions) (h : s.Candidate name files r) :
    InInt32 r.line ∧ InInt32 r.column := by
  obtain ⟨⟨f, -, hfile⟩, ⟨row, hrow, rfl, -⟩ | ⟨e, he, -, rfl⟩⟩ := h
  · exact hc.references row hrow
  · rcases hd : e.decl with _ | p
    · simp [declarationReference, hd] at hfile
    · simp only [declarationReference, hd]
      exact hc.entities e he p hd

/-- Between positions of 32 bits that are not negative, one of which counts from 1, no subtraction overflows. -/
theorem inInt32_sub {m n : Int} (hm : 1 ≤ m) (hm' : InInt32 m) (hn : 0 ≤ n) (hn' : InInt32 n) :
    InInt32 (m - n) ∧ InInt32 (m - n).natAbs := by
  unfold InInt32 at *
  omega

/-- In every reachable store a name that is not empty resolves, at every place, to what the ranking says; and where
all positions that came in and the one that is asked for are of 32 bits, so are all distances on the way. -/
theorem resolve_ranks {Canonical : (String → String) → Prop} (hs : s.Reachable Canonical) (canon : String → String)
    (hname : name ≠ "") (file : String) (line column : Option Int) :
    s.Resolves name (s.filesMatching canon file) line column (s.resolve canon name file line column) ∧
      (s.Fed .positions → (∀ n, line = some n ∨ column = some n → 0 ≤ n ∧ InInt32 n) →
        ∀ l, line = some l → ∀ r, s.Candidate name (s.filesMatching canon file) r →
          (InInt32 (r.line - l) ∧ InInt32 (r.line - l).natAbs) ∧
            InInt32 (r.column - column.getD 1) ∧ InInt32 (r.column - column.getD 1).natAbs) := by
  refine ⟨(choice_resolve hs.sound hs.ascending canon hname file line column).resolves hs.sound hs.ascending, ?_⟩
  intro hfed hplace l hl r hr
  obtain ⟨-, -, hline, hcolumn⟩ := hr.wellPlaced hs.sound
  obtain ⟨hfline, hfcolumn⟩ := hr.inInt32 hfed.confined
  have hwanted : 0 ≤ column.getD 1 ∧ InInt32 (column.getD 1) := by
    cases column with
    | none => exact ⟨by decide, by decide⟩
    | some c => exact hplace c (.inr rfl)
  exact ⟨inInt32_sub hline hfline (hplace l (.inl hl)).1 (hplace l (.inl hl)).2,
    inInt32_sub hcolumn hfcolumn hwanted.1 hwanted.2⟩

theorem loneStore_fed : loneStore.Fed .positions := by
  refine Fed.fresh.update_ofUnits fun u hu => ?_
  obtain rfl := List.mem_singleton.1 hu
  constructor <;>
    simp [UnitRecord.recorded, UnitRecord.mentioned, loneUnit, EntityKey.Admitted, Intake.positions, InInt32,
      ReferenceRecord.keys, EntityRecord.key]

/-- The file of that store. -/
def loneFiles : List SourceFile :=
  loneStore.filesMatching Path.normalize "a.ads"

/-- What its entity resolves to on a line. -/
def loneAnswer (line : Int) : Reference :=
  loneStore.resolve Path.normalize "Lone" "a.ads" (some line) none

/-- A reference lies on line 2. It is an exact hit there, and on line 9 there is only an approximation. -/
theorem loneStore_ranks :
    ("Lone" ≠ "" ∧ loneStore.Fed .positions ∧ InInt32 2 ∧
      loneStore.Candidate "Lone" loneFiles (loneStore.reference ⟨1, 1, 2, 3, 'r', none, 1⟩)) ∧
      (loneStore.Resolves "Lone" loneFiles (some 2) none (loneAnswer 2) ∧
        ∀ r, loneStore.Candidate "Lone" loneFiles r → InInt32 (r.line - 2) ∧ InInt32 (r.column - 1)) ∧
      ((loneAnswer 2).isFuzzy = false ∧ (loneAnswer 2).line = 2) ∧ (loneAnswer 9).isFuzzy = true := by
  have hreach : Reachable (fun _ => True) loneStore := .update .fresh trivial fun _ h => by cases h
  have hmention : loneStore.Candidate "Lone" loneFiles (loneStore.reference ⟨1, 1, 2, 3, 'r', none, 1⟩) := by
    refine ⟨⟨⟨1, "a.ads"⟩, ?_⟩, .inl ⟨_, ?_, rfl, ?_⟩⟩ <;> decide +kernel
  have hlines : ∀ r, loneStore.Candidate "Lone" loneFiles r → r.line ≤ 2 := by
    have hrows : (∀ row ∈ loneStore.references, (loneStore.reference row).line ≤ 2) ∧
        ∀ e ∈ loneStore.entities, (loneStore.declarationReference e).line ≤ 2 := by decide +kernel
    rintro r ⟨-, ⟨row, hrow, rfl, -⟩ | ⟨e, he, -, rfl⟩⟩
    · exact hrows.1 row hrow
    · exact hrows.2 e he
  obtain ⟨htwo, hfits⟩ := resolve_ranks hreach Path.normalize (show "Lone" ≠ "" by decide) "a.ads" (some 2) none
  obtain ⟨hnine, -⟩ := resolve_ranks hreach Path.normalize (show "Lone" ≠ "" by decide) "a.ads" (some 9) none
  obtain ⟨hleast, hfuzzy⟩ := htwo.exact 2 rfl ⟨_, hmention, rfl, fun _ h => by cases h⟩
  refine ⟨⟨by decide, loneStore_fed, by decide, hmention⟩, ⟨htwo, fun r hr => ?_⟩,
    ⟨hfuzzy, hleast.holds.2.1⟩, ?_⟩
  · have hbounds := hfits loneStore_fed (fun n hn => ?_) 2 rfl r hr
    · exact ⟨hbounds.1.1, hbounds.2.1⟩
    · rcases hn with h | h
      · obtain rfl := Option.some.inj h
        decide
      · cases h
  · obtain ⟨r, hfound, -⟩ := hnine.nearest 9 rfl ⟨_, hmention⟩ fun r hr hat => by
      have := hlines r hr
      rw [hat.1] at this
      cases this
    rw [show loneAnswer 9 = r.asFuzzy from hfound]
    rfl

end Store

end CrossIndex
