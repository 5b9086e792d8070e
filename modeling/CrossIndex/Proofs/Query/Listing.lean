/-
The order in which the references to an entity are listed. They are put in the order of path texts, lines, columns and
kinds, while references compare by the components of their paths first. Main statement: the list goes against the
order of references where one path undercuts another one, and nowhere else; so putting it in that order only moves
references within one position exactly if no path of a listed file undercuts another one.
-/
import CrossIndex.Database.Update
import CrossIndex.Proofs.Path.Crossing
import CrossIndex.Proofs.Query.Resolution
import CrossIndex.Proofs.Store.Identity
import Mathlib.Data.List.Pairwise

namespace CrossIndex

/-- The text under which a path is stored is a normal form, whatever tree the path is looked up in. -/
theorem FileTree.canon_normalizing (t : FileTree) : Path.Normalizing t.canon := by
  intro path
  unfold canon
  split <;> exact Path.normalize_normalize _

/-- An update of a database, on whatever tree and however it ends, leads to a store that is reachable with
normal forms of paths. -/
theorem Database.run_reachable {db : Database} {t : FileTree} {src : Source} {options : UpdateOptions} {s : Store}
    (hs : s.Reachable Path.Normalizing)
    (hb : ∀ path saved, options.baseline = some path → db.baselineAt t path = .saved saved →
      saved.Reachable Path.Normalizing) : (db.run t src options s).store.Reachable Path.Normalizing := by
  refine .update hs t.canon_normalizing fun saved hsaved => ?_
  obtain ⟨path, hpath, hat⟩ := Option.map_eq_some_iff.1 hsaved
  exact hb path saved hpath hat

/-! ## Positions -/

/-- Where a reference lies and of what kind it is: the fields that its order looks at first. -/
structure Position where
  path : Option (List Path.Component)
  line : Int
  column : Int
  kindId : Char

instance : Ord Position where
  compare :=
    compareLex (compareOn Position.path) <|
    compareLex (compareOn Position.line) <|
    compareLex (compareOn Position.column) (compareOn Position.kindId)

instance : Std.TransOrd Position :=
  inferInstanceAs (Std.TransCmp (compareLex (compareOn Position.path) _))

instance : Std.LawfulEqOrd Position where
  compare_self {a} := Std.ReflCmp.compare_self
  eq_of_compare {a b} h := by
    have h' : compareLex (compareOn Position.path) _ a b = .eq := h
    simp only [compareLex_eq_eq, compareOn, Std.compare_eq_iff_eq] at h'
    obtain ⟨hpath, hline, hcolumn, hkind⟩ := h'
    cases a
    cases b
    simp_all

/-- The position of a reference. -/
def Reference.position (r : Reference) : Position :=
  ⟨r.pathKey, r.line, r.column, r.kindId⟩

/-- References that are in order have their positions in order. -/
theorem Reference.position_isLE {a b : Reference} (h : (compare a b).isLE) : (compare a.position b.position).isLE := by
  have hnested : ((compare a.pathKey b.pathKey).then <| (compare a.line b.line).then <|
      (compare a.column b.column).then <| (compare a.kindId b.kindId).then _).isLE := h
  show ((compare a.pathKey b.pathKey).then <| (compare a.line b.line).then <|
    (compare a.column b.column).then (compare a.kindId b.kindId)).isLE
  simp only [← Ordering.then_assoc] at hnested ⊢
  exact Ordering.isLE_left_of_isLE_then hnested

namespace Store

/-- No path of a file that some references lie in undercuts the path of another one. -/
def Untangled (rs : List Reference) : Prop :=
  ∀ a ∈ rs, ∀ b ∈ rs, ∀ f g, a.file = some f → b.file = some g → ¬ Path.Undercuts f.path g.path

/-- How the references to an entity are listed: each once, by the texts of their paths, against the order of positions
where one path undercuts another one and nowhere else. -/
structure Listed (s : Store) (id : Int) (rs : List Reference) : Prop where
  all : rs.Perm (s.mentions id)
  located : ∀ r ∈ rs, ∃ f ∈ s.files, r.file = some f ∧ Path.normalize f.path = f.path
  byText : rs.Pairwise fun a b => (byPlaceAndKind a b).isLE
  against : rs.Pairwise fun a b => compare a.position b.position = .gt ↔
    ∃ f g, a.file = some f ∧ b.file = some g ∧ Path.Undercuts f.path g.path
  inOrder : (rs.Pairwise fun a b => (compare a.position b.position).isLE) ↔ Untangled rs
  resorted : (sorted compare rs).map Reference.position = rs.map Reference.position ↔ Untangled rs

variable {s : Store} {id : Int} {a b : Reference} {f g : SourceFile}

theorem mentions_located (hs : s.Sound) {r : Reference} (h : r ∈ s.mentions id) : ∃ f ∈ s.files, r.file = some f := by
  rcases List.mem_append.1 h with h | h
  · obtain ⟨row, hrow, rfl⟩ := List.mem_map.1 h
    obtain ⟨f, hf, hid⟩ := (hs.references row (List.mem_of_mem_filter hrow)).file
    exact ⟨f, hf, (file?_eq_some hs.toDistinct).2 ⟨hf, hid⟩⟩
  · obtain ⟨e, he, rfl⟩ := List.mem_map.1 h
    obtain ⟨he, hdecl⟩ := List.mem_filter.1 he
    rw [Bool.and_eq_true, Option.isSome_iff_exists] at hdecl
    obtain ⟨-, p, hp⟩ := hdecl
    obtain ⟨f, hf, hid⟩ := ((hs.entities e he).decl p hp).1
    exact ⟨f, hf, by simp [declarationReference, hp, (file?_eq_some hs.toDistinct).2 ⟨hf, hid⟩]⟩

/-- References are listed by the texts of their paths first. -/
theorem byPlaceAndKind_eq (ha : a.file = some f) (hb : b.file = some g) : byPlaceAndKind a b =
    (compare f.path g.path).then ((compare a.line b.line).then ((compare a.column b.column).then
      ((compare a.kindId b.kindId).then (compare a.entity.id b.entity.id)))) := by
  show ((compare a.pathText b.pathText).then ((compare a.line b.line).then (compare a.column b.column))).then
    ((compare a.kindId b.kindId).then (compare a.entity.id b.entity.id)) = _
  rw [Reference.pathText, ha, Reference.pathText, hb, Ordering.then_assoc, Ordering.then_assoc]
  rfl

theorem position_eq (ha : a.file = some f) (hb : b.file = some g) : compare a.position b.position =
    (Path.order f.path g.path).then ((compare a.line b.line).then ((compare a.column b.column).then
      (compare a.kindId b.kindId))) := by
  show (compare a.pathKey b.pathKey).then _ = _
  rw [Reference.pathKey, ha, Reference.pathKey, hb]
  rfl

/-- References that are in the order of texts go against the order of positions where one path undercuts the other. -/
theorem position_gt_iff (ha : a.file = some f) (hb : b.file = some g) (hf : Path.normalize f.path = f.path)
    (hg : Path.normalize g.path = g.path) (hle : (byPlaceAndKind a b).isLE) :
    compare a.position b.position = .gt ↔ Path.Undercuts f.path g.path := by
  rw [Path.undercuts_iff hf hg, position_eq ha hb]
  rw [byPlaceAndKind_eq ha hb] at hle
  cases htext : compare f.path g.path with
  | lt =>
    have hlt := Path.compare_text_lt.1 htext
    have hdiffer : Path.order f.path g.path ≠ .eq := by
      intro he
      have hsame := Path.normalize_uniform _ _ (Path.order_eq_iff.1 he)
      rw [hf, hg] at hsame
      rw [hsame] at hlt
      exact String.lt_irrefl _ hlt
    rw [Ordering.then_eq_gt]
    simp [hlt, hdiffer]
  | eq =>
    have hpath : f.path = g.path := Std.LawfulEqOrd.eq_of_compare htext
    have hsame : Path.order g.path g.path = .eq := Path.order_eq_iff.2 (by simp [Path.same])
    rw [htext, Ordering.eq_then, ← Ordering.then_assoc, ← Ordering.then_assoc] at hle
    have hplace := Ordering.isLE_left_of_isLE_then hle
    rw [hpath, hsame, Ordering.eq_then, ← Ordering.then_assoc]
    refine iff_of_false (fun hgt => ?_) fun h => String.lt_irrefl _ h.1
    rw [hgt] at hplace
    cases hplace
  | gt =>
    rw [htext] at hle
    cases hle

/-- A reference in a file whose path comes first as a text is listed first. -/
theorem byPlaceAndKind_lt (ha : a.file = some f) (hb : b.file = some g) (hlt : f.path < g.path) :
    byPlaceAndKind a b = .lt := by
  rw [byPlaceAndKind_eq ha hb, Path.compare_text_lt.2 hlt]
  rfl

section Sorted

variable {rs rs' : List Reference}

instance : Std.TransCmp byPlaceAndKind :=
  inferInstanceAs (Std.TransCmp (compareLex (compareLex (compareOn Reference.pathText) _) _))

theorem pairwise_against (hlocated : ∀ r ∈ rs, ∃ f ∈ s.files, r.file = some f ∧ Path.normalize f.path = f.path)
    (htext : rs.Pairwise fun a b => (byPlaceAndKind a b).isLE) :
    rs.Pairwise fun a b => compare a.position b.position = .gt ↔
      ∃ f g, a.file = some f ∧ b.file = some g ∧ Path.Undercuts f.path g.path := by
  refine htext.imp_of_mem fun {a b} ha hb hle => ?_
  obtain ⟨f, -, hfile, hf⟩ := hlocated a ha
  obtain ⟨g, -, hfile', hg⟩ := hlocated b hb
  rw [position_gt_iff hfile hfile' hf hg hle]
  constructor
  · exact fun hu => ⟨f, g, hfile, hfile', hu⟩
  · rintro ⟨f', g', hf', hg', hu⟩
    rw [hfile, Option.some.injEq] at hf'
    rw [hfile', Option.some.injEq] at hg'
    rwa [hf', hg']

theorem rel_or_rel_of_pairwise {α : Type} {R : α → α → Prop} {l : List α} (h : l.Pairwise R) {a b : α} (ha : a ∈ l)
    (hb : b ∈ l) (hne : a ≠ b) : R a b ∨ R b a := by
  have hsymm : Std.Symm fun a b => R a b ∨ R b a := ⟨fun _ _ => Or.symm⟩
  have hboth : l.Pairwise fun a b => R a b ∨ R b a := h.imp Or.inl
  exact hboth.forall ha hb hne

/-- Two references, one of which lies in a file whose path undercuts that of the other one, are listed against the
order of positions, whichever way round they are taken. -/
theorem pairwise_position_iff (hlocated : ∀ r ∈ rs, ∃ f ∈ s.files, r.file = some f ∧ Path.normalize f.path = f.path)
    (htext : rs.Pairwise fun a b => (byPlaceAndKind a b).isLE) :
    (rs.Pairwise fun a b => (compare a.position b.position).isLE) ↔ Untangled rs := by
  have hagainst := pairwise_against hlocated htext
  constructor
  · intro horder a ha b hb f g hfile hfile' hu
    obtain ⟨f', -, hf', hf⟩ := hlocated a ha
    obtain ⟨g', -, hg', hg⟩ := hlocated b hb
    obtain rfl : f = f' := Option.some.inj (hfile.symm.trans hf')
    obtain rfl : g = g' := Option.some.inj (hfile'.symm.trans hg')
    have hlt := ((Path.undercuts_iff hf hg).1 hu).1
    have hne : a ≠ b := by
      rintro rfl
      obtain rfl : f = g := Option.some.inj (hfile.symm.trans hfile')
      exact String.lt_irrefl _ hlt
    have hboth : rs.Pairwise fun a b => (byPlaceAndKind a b).isLE ∧ (compare a.position b.position).isLE :=
      htext.and horder
    rcases rel_or_rel_of_pairwise hboth ha hb hne with ⟨hle, hpos⟩ | ⟨hle, -⟩
    · rw [(position_gt_iff hfile hfile' hf hg hle).2 hu] at hpos
      cases hpos
    · have hswap : byPlaceAndKind b a = (byPlaceAndKind a b).swap := Std.OrientedCmp.eq_swap
      rw [hswap, byPlaceAndKind_lt hfile hfile' hlt] at hle
      cases hle
  · intro h
    refine hagainst.imp_of_mem fun {a b} ha hb hiff => ?_
    rw [← Ordering.ne_gt_iff_isLE]
    intro hgt
    obtain ⟨f, g, hfile, hfile', hu⟩ := hiff.1 hgt
    exact h a ha b hb f g hfile hfile' hu

/-- Lists that are in the order of positions and hold the same positions have them in the same places. -/
theorem map_position_eq_of_perm (hperm : rs.Perm rs') (h : rs.Pairwise fun a b => (compare a.position b.position).isLE)
    (h' : rs'.Pairwise fun a b => (compare a.position b.position).isLE) :
    rs.map Reference.position = rs'.map Reference.position := by
  have hmap : (rs.map Reference.position).Pairwise fun x y => (compare x y).isLE := List.pairwise_map.2 h
  have hmap' : (rs'.map Reference.position).Pairwise fun x y => (compare x y).isLE := List.pairwise_map.2 h'
  refine List.Perm.eq_of_pairwise (fun x y _ _ hxy hyx => ?_) hmap hmap' (hperm.map _)
  exact Std.LawfulEqOrd.eq_of_compare (Std.OrientedCmp.isLE_antisymm hxy hyx)

theorem resorted_iff : (sorted compare rs).map Reference.position = rs.map Reference.position ↔
    rs.Pairwise fun a b => (compare a.position b.position).isLE := by
  have hsorted : (sorted compare rs).Pairwise fun a b => (compare a.position b.position).isLE :=
    (pairwise_mergeSort_isLE rs).imp Reference.position_isLE
  constructor
  · intro h
    have hmap := List.pairwise_map (R := fun x y : Position => (compare x y).isLE).2 hsorted
    rw [h] at hmap
    exact List.pairwise_map.1 hmap
  · exact map_position_eq_of_perm (List.mergeSort_perm _ _) hsorted

end Sorted

/-- In every reachable store the references to an entity are listed by the texts of their paths. The list goes against
the order of references exactly where one path undercuts another one, and putting it in that order moves references
within one position only exactly if no path of a listed file undercuts another one. -/
theorem references_listed (h : s.Reachable Path.Normalizing) (id : Int) : s.Listed id (s.referencesTo id) := by
  have hs := h.sound
  have hnormal := h.met.normalPaths_of fun _ hc => hc
  have hperm : (s.referencesTo id).Perm (s.mentions id) := List.mergeSort_perm _ _
  have hlocated : ∀ r ∈ s.referencesTo id, ∃ f ∈ s.files, r.file = some f ∧ Path.normalize f.path = f.path := by
    intro r hr
    obtain ⟨f, hf, hfile⟩ := mentions_located hs (hperm.mem_iff.1 hr)
    exact ⟨f, hf, hfile, hnormal f hf⟩
  have htext : (s.referencesTo id).Pairwise fun a b => (byPlaceAndKind a b).isLE := pairwise_mergeSort_isLE _
  have hagainst := pairwise_against hlocated htext
  have hiff := pairwise_position_iff hlocated htext
  exact ⟨hperm, hlocated, htext, hagainst, hiff, resorted_iff.trans hiff⟩

/-- A procedure that is declared in a package and called in a child of it, which lies in a directory named after the
package, and the child, which is mentioned in its own file only. -/
def parentUnit : UnitRecord where
  indexFile := "pkg.ali"
  stamp := 1
  sourceFiles := ["pkg.ads", "pkg/child.adb"]
  entities := [⟨"P", "procedure", some ⟨"pkg.ads", 1, 11⟩, {}⟩,
    ⟨"Child", "procedure", some ⟨"pkg/child.adb", 1, 15⟩, {}⟩]
  references := [⟨⟨"P", some ⟨"pkg.ads", 1, 11⟩⟩, ⟨"pkg/child.adb", 2, 4⟩, 's', none⟩,
    ⟨⟨"Child", some ⟨"pkg/child.adb", 1, 15⟩⟩, ⟨"pkg/child.adb", 3, 5⟩, 't', none⟩]

/-- The store of a database that has taken in that unit. -/
def parentStore : Store :=
  (fresh.update Path.normalize {} (MemorySource.ofUnits [parentUnit]).toSource false none).store

/-- A tree with the file of that store alone, and the store after an update there that takes the unit in again. -/
def parentTree : FileTree := ⟨[], #[⟨.store parentStore, 0⟩], []⟩

def renewedStore : Store :=
  (Database.run ⟨none, { file := 0 }, {}⟩ parentTree (MemorySource.ofUnits [parentUnit]).toSource { force := true }
    parentStore).store

theorem parentStore_listed :
    ¬ ((parentStore.referencesTo 1).Pairwise fun a b => (compare a.position b.position).isLE) ∧
      ((parentStore.referencesTo 2).Pairwise fun a b => (compare a.position b.position).isLE) ∧
      parentStore.Listed 1 (parentStore.referencesTo 1) ∧ parentStore.Listed 2 (parentStore.referencesTo 2) ∧
      renewedStore.Listed 1 (renewedStore.referencesTo 1) := by
  have hreach : Reachable Path.Normalizing parentStore :=
    .update .fresh Path.normalize_normalizing fun _ h => by cases h
  have hlisted := references_listed hreach
  have hmentions : (parentStore.mentions 1).map Reference.file = [some ⟨2, "pkg/child.adb"⟩, some ⟨1, "pkg.ads"⟩] ∧
      (parentStore.mentions 2).map Reference.file = [some ⟨2, "pkg/child.adb"⟩, some ⟨2, "pkg/child.adb"⟩] := by
    decide +kernel
  have hfiles : ∀ id file, file ∈ (parentStore.mentions id).map Reference.file ↔
      ∃ r ∈ parentStore.referencesTo id, r.file = file := fun id file => by
    rw [← ((hlisted id).all.map Reference.file).mem_iff, List.mem_map]
  refine ⟨fun horder => ?_, (hlisted 2).inOrder.2 fun a ha b hb f g hf hg hu => ?_, hlisted 1, hlisted 2,
    references_listed (Database.run_reachable hreach fun _ _ h => by cases h) 1⟩
  · obtain ⟨a, ha, hf⟩ := (hfiles 1 (some ⟨1, "pkg.ads"⟩)).1 (by rw [hmentions.1]; decide)
    obtain ⟨b, hb, hg⟩ := (hfiles 1 (some ⟨2, "pkg/child.adb"⟩)).1 (by rw [hmentions.1]; decide)
    refine (hlisted 1).inOrder.1 horder a ha b hb _ _ hf hg ?_
    -- the package's file name goes on with a dot where the child's path goes on with a slash
    exact @Path.Undercuts.atName _ _ [] [] [] "pkg".toList "child.adb".toList '.' "ads".toList (by decide) rfl rfl
      (by decide)
  · have hpath : ∀ r ∈ parentStore.referencesTo 2, r.file = some ⟨2, "pkg/child.adb"⟩ := by
      intro r hr
      have hmem := (hfiles 2 r.file).2 ⟨r, hr, rfl⟩
      rw [hmentions.2] at hmem
      simpa using hmem
    obtain rfl := Option.some.inj (hf.symm.trans (hpath a ha))
    obtain rfl := Option.some.inj (hg.symm.trans (hpath b hb))
    exact String.lt_irrefl _ ((Path.undercuts_iff (by decide) (by decide)).1 hu).1

end Store

end CrossIndex
