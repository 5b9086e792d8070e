/-
The files that a fragment names, against the paths that end with it. What is compared is the fragment's normal form,
put after a slash, with the end of a path that has more before it. So a file at the root is not named by the rest of
its path, an absolute fragment names every longer path that ends with it, and a null character cuts what is compared.
Main statement: which files a fragment names, in the order of the bytes of their paths; and where no text has a null
character, they are the ones whose paths end with it at a component boundary, except in the first two cases.
-/
import CrossIndex.Proofs.Path.Order
import CrossIndex.Proofs.Path.Suffix
import CrossIndex.Proofs.Store.Identity
import CrossIndex.Query.File
import CrossIndex.Source.Memory
import Mathlib.Data.List.TakeWhile

namespace CrossIndex

namespace Path

/-- A path is a wanted one put after a single slash. -/
def AtRoot (wanted path : String) : Prop :=
  path.toList = '/' :: wanted.toList

/-- A path is longer than a wanted one that is absolute, and ends with it. -/
def Overruns (wanted path : String) : Prop :=
  isAbsolute wanted.toList = true ∧ wanted.toList <:+ path.toList ∧ path ≠ wanted

/-- A text has no null character. -/
def Unbroken (path : String) : Prop :=
  '\x00' ∉ path.toList

instance (wanted path : String) : Decidable (AtRoot wanted path) :=
  inferInstanceAs (Decidable (path.toList = '/' :: wanted.toList))

instance (wanted path : String) : Decidable (Overruns wanted path) :=
  inferInstanceAs (Decidable (_ ∧ _ ∧ _))

instance (path : String) : Decidable (Unbroken path) :=
  inferInstanceAs (Decidable (¬ _))

variable {wanted path : String}

theorem ne_append_of_normal (hpath : normalize path = path) (front rest : List Char) :
    path.toList ≠ front ++ '/' :: '/' :: rest := by
  rw [← hpath, normalize, String.toList_ofList]
  exact normalChars_ne_append _ front rest

theorem ne_of_append {front : List Char} (hfront : front ≠ []) (h : path.toList = front ++ wanted.toList) :
    path ≠ wanted := by
  rintro rfl
  exact hfront (List.append_left_eq_self.1 h.symm)

/-- A normal path that overruns a wanted one does not end at it, since two slashes would stand before the end. -/
theorem Overruns.not_endsAt (h : Overruns wanted path) (hpath : normalize path = path) : endsAt path wanted ≠ true := by
  obtain ⟨habs, -, hne⟩ := h
  obtain ⟨rest, hrest⟩ := isAbsolute_iff.1 habs
  intro hends
  rcases endsAt_iff.1 hends with heq | ⟨front, hfront⟩
  · exact hne heq
  · rw [hrest] at hfront
    exact ne_append_of_normal hpath front rest hfront.symm

theorem AtRoot.not_overruns (h : AtRoot wanted path) (hpath : normalize path = path) : ¬ Overruns wanted path :=
  fun hover => hover.not_endsAt hpath (endsAt_iff.2 (.inr ⟨[], h.symm⟩))

end Path

namespace Store

/-- The files that are found for a normal form: those with that path, and those with more before a slash and the
normal form; how they answer to the paths that end with it, and when they are exactly those. -/
structure Matched (s : Store) (wanted : String) (found : List SourceFile) : Prop where
  mem : ∀ f, f ∈ found ↔ f ∈ s.files ∧ (f.path = wanted ∨ Path.Unbroken wanted ∧
    ∃ front ≠ [], untilNull f.path.toList = front ++ '/' :: wanted.toList.dropWhile (· == '/'))
  ascending : found.Pairwise fun a b => Path.bytes a.path < Path.bytes b.path
  answers : Path.Unbroken wanted → ∀ f ∈ s.files, Path.Unbroken f.path →
    (f ∈ found ↔ Path.endsAt f.path wanted = true ∧ ¬ Path.AtRoot wanted f.path ∨ Path.Overruns wanted f.path)
  exact : Path.Unbroken wanted → (∀ f ∈ s.files, Path.Unbroken f.path) →
    ((∀ f, f ∈ found ↔ f ∈ s.files ∧ Path.endsAt f.path wanted = true) ↔
      ∀ f ∈ s.files, ¬ Path.AtRoot wanted f.path ∧ ¬ Path.Overruns wanted f.path)
  asserted : Path.Unbroken wanted → (∀ f ∈ s.files, Path.Unbroken f.path) →
    ((∀ f ∈ found, Path.endsAt f.path wanted = true) ↔ ∀ f ∈ s.files, ¬ Path.Overruns wanted f.path)

variable {canon : String → String} {s : Store} {fragment wanted path : String} {f : SourceFile}

/-! ## The comparison of ends -/

theorem untilNull_eq_self {cs : List Char} : untilNull cs = cs ↔ '\x00' ∉ cs := by
  rw [untilNull, List.takeWhile_eq_self_iff]
  constructor
  · intro h hmem
    simpa using h _ hmem
  · intro h c hc
    simpa using fun e : c = '\x00' => h (e ▸ hc)

/-- A path has an end if that has no null character, and the path up to its first one has more before it. -/
theorem hasEnd_iff {ending : List Char} :
    hasEnd path ending = true ↔ '\x00' ∉ ending ∧ ∃ front ≠ [], untilNull path.toList = front ++ ending := by
  unfold hasEnd
  simp only [Bool.and_eq_true, decide_eq_true_eq, beq_iff_eq]
  constructor
  · rintro ⟨hlength, hdrop⟩
    have hleading : untilNull ending <+: ending := List.takeWhile_prefix _
    have hends := congrArg List.length hdrop
    rw [List.length_drop] at hends
    have hpath := List.take_append_drop ((untilNull path.toList).length - (untilNull ending).length)
      (untilNull path.toList)
    rw [hdrop] at hpath
    refine ⟨untilNull_eq_self.1 (hleading.eq_of_length (by omega)), _, fun hnil => ?_, hpath.symm⟩
    have hcut := congrArg List.length hnil
    rw [List.length_take, List.length_nil] at hcut
    omega
  · rintro ⟨hnull, front, hfront, hpath⟩
    have hpos := List.length_pos_iff.2 hfront
    rw [untilNull_eq_self.2 hnull, hpath, List.length_append, Nat.add_sub_cancel, List.drop_left]
    exact ⟨by omega, rfl⟩

theorem notMem_fragmentEnd : '\x00' ∉ fragmentEnd wanted ↔ Path.Unbroken wanted := by
  have hslashes : '\x00' ∉ wanted.toList.takeWhile (· == '/') := fun h => by simpa using List.mem_takeWhile_imp h
  have hsplit : Path.Unbroken wanted ↔ '\x00' ∉ wanted.toList.dropWhile (· == '/') := by
    rw [Path.Unbroken, ← List.takeWhile_append_dropWhile (p := (· == '/')) (l := wanted.toList), List.mem_append,
      not_or, List.takeWhile_append_dropWhile]
    exact and_iff_right hslashes
  rw [hsplit, fragmentEnd, List.mem_cons, not_or]
  exact and_iff_right (by decide)

theorem mem_filesMatching (hblank : Text.trim fragment ≠ "") : f ∈ s.filesMatching canon fragment ↔
    f ∈ s.files ∧ (f.path = canon (Text.trim fragment) ∨ f.path = Path.normalize (Text.trim fragment) ∨
      hasEnd f.path (fragmentEnd (Path.normalize (Text.trim fragment))) = true) := by
  have hempty : (Text.trim fragment).isEmpty = false := by simpa using hblank
  unfold filesMatching
  simp only [hempty, Bool.false_eq_true, if_false, byPath, List.mem_mergeSort, List.mem_filter, Bool.or_eq_true,
    beq_iff_eq, or_assoc]

/-- Files with distinct paths come out in the order of the bytes of their paths. -/
theorem byPath_ascending {fs : List SourceFile} (h : (fs.map SourceFile.path).Nodup) :
    (byPath fs).Pairwise fun a b => Path.bytes a.path < Path.bytes b.path := by
  have hdistinct : (byPath fs).Pairwise fun a b => a.path ≠ b.path :=
    List.pairwise_map.1 (((List.mergeSort_perm fs _).map SourceFile.path).nodup_iff.2 h)
  refine (@pairwise_mergeSort_isLE _ (compareOn SourceFile.path) _ fs).imp₂ (fun a b hle hne => ?_) hdistinct
  rcases Ordering.isLE_iff_eq_lt_or_eq_eq.1 hle with hlt | heq
  · exact Path.bytes_lt (compareOfLessAndEq_eq_lt.1 hlt)
  · exact absurd (Std.compare_eq_iff_eq.1 heq) hne

theorem filesMatching_ascending (hs : s.Distinct) (canon : String → String) (fragment : String) :
    (s.filesMatching canon fragment).Pairwise fun a b => Path.bytes a.path < Path.bytes b.path := by
  unfold filesMatching
  dsimp only
  split
  · exact .nil
  · exact byPath_ascending (hs.paths.sublist (List.filter_sublist.map _))

/-! ## Normal forms -/

/-- The slash that an absolute normal form starts with is the one that its end starts with. -/
theorem fragmentEnd_of_normal (hwanted : Path.normalize wanted = wanted) :
    fragmentEnd wanted = if Path.isAbsolute wanted.toList then wanted.toList else '/' :: wanted.toList := by
  have hdouble := Path.ne_append_of_normal hwanted []
  unfold fragmentEnd
  rcases hcs : wanted.toList with _ | ⟨c, _ | ⟨d, cs⟩⟩
  · rfl
  · by_cases hc : c = '/' <;> simp [Path.isAbsolute, hc]
  · by_cases hc : c = '/'
    · have hd : d ≠ '/' := fun hd => hdouble cs (by rw [hcs, hc, hd]; rfl)
      simp [Path.isAbsolute, hc, hd]
    · simp [Path.isAbsolute, hc]

/-- Of two normal paths without null characters, the one is the other or has the end that is looked for if it ends at
the other one and is not that at the root, or overruns it. -/
theorem eq_or_hasEnd_iff (hpath : Path.normalize path = path) (hwanted : Path.normalize wanted = wanted)
    (hnull : Path.Unbroken wanted) (hpathNull : Path.Unbroken path) :
    (path = wanted ∨ hasEnd path (fragmentEnd wanted) = true) ↔
      Path.endsAt path wanted = true ∧ ¬ Path.AtRoot wanted path ∨ Path.Overruns wanted path := by
  have hself : ¬ Path.AtRoot wanted wanted := fun h => List.cons_ne_self '/' wanted.toList h.symm
  rw [hasEnd_iff, untilNull_eq_self.2 hpathNull, Path.endsAt_iff, fragmentEnd_of_normal hwanted]
  by_cases habs : Path.isAbsolute wanted.toList = true
  · rw [if_pos habs]
    constructor
    · rintro (rfl | ⟨-, front, hfront, happ⟩)
      · exact .inl ⟨.inl rfl, hself⟩
      · exact .inr ⟨habs, ⟨front, happ.symm⟩, Path.ne_of_append hfront happ⟩
    · rintro (⟨heq | hends, -⟩ | ⟨-, ⟨front, happ⟩, hne⟩)
      · exact .inl heq
      · by_cases heq : path = wanted
        · exact .inl heq
        · have hover : Path.Overruns wanted path := ⟨habs, (List.suffix_cons '/' _).trans hends, heq⟩
          exact absurd (Path.endsAt_iff.2 (.inr hends)) (hover.not_endsAt hpath)
      · refine .inr ⟨hnull, front, ?_, happ.symm⟩
        rintro rfl
        exact hne (String.toList_inj.1 happ.symm)
  · rw [if_neg habs]
    constructor
    · rintro (rfl | ⟨-, front, hfront, happ⟩)
      · exact .inl ⟨.inl rfl, hself⟩
      · refine .inl ⟨.inr ⟨front, happ.symm⟩, fun hroot => hfront ?_⟩
        exact List.append_left_eq_self.1 (happ.symm.trans hroot)
    · rintro (⟨heq | ⟨front, happ⟩, hroot⟩ | ⟨habs', -⟩)
      · exact .inl heq
      · refine .inr ⟨List.not_mem_cons_of_ne_of_not_mem (by decide) hnull, front, ?_, happ.symm⟩
        rintro rfl
        exact hroot happ.symm
      · exact absurd habs' habs

section Lexical

variable (hs : s.NormalPaths) (hblank : Text.trim fragment ≠ "")
  (hwanted : Path.normalize (Text.trim fragment) = wanted)

include hblank hwanted

theorem mem_filesMatching_normalize : f ∈ s.filesMatching Path.normalize fragment ↔
    f ∈ s.files ∧ (f.path = wanted ∨ hasEnd f.path (fragmentEnd wanted) = true) := by
  rw [mem_filesMatching hblank, ← or_assoc, or_self, hwanted]

include hs

theorem mem_filesMatching_iff_endsAt (hnull : Path.Unbroken wanted) (hf : f ∈ s.files) (hfnull : Path.Unbroken f.path) :
    f ∈ s.filesMatching Path.normalize fragment ↔
      Path.endsAt f.path wanted = true ∧ ¬ Path.AtRoot wanted f.path ∨ Path.Overruns wanted f.path := by
  have hnormal : Path.normalize wanted = wanted := by rw [← hwanted, Path.normalize_normalize]
  rw [mem_filesMatching_normalize hblank hwanted, and_iff_right hf, eq_or_hasEnd_iff (hs f hf) hnormal hnull hfnull]

/-- The files are exactly those that end at the wanted path if none is at the root and none overruns it. -/
theorem filesMatching_exact_iff (hnull : Path.Unbroken wanted) (hall : ∀ f ∈ s.files, Path.Unbroken f.path) :
    (∀ f, f ∈ s.filesMatching Path.normalize fragment ↔ f ∈ s.files ∧ Path.endsAt f.path wanted = true) ↔
      ∀ f ∈ s.files, ¬ Path.AtRoot wanted f.path ∧ ¬ Path.Overruns wanted f.path := by
  constructor
  · intro hexact f hf
    have hfound := mem_filesMatching_iff_endsAt hs hblank hwanted hnull hf (hall f hf)
    refine ⟨fun hroot => ?_, fun hover => ?_⟩
    · rcases hfound.1 ((hexact f).2 ⟨hf, Path.endsAt_iff.2 (.inr ⟨[], hroot.symm⟩)⟩) with ⟨-, hnot⟩ | hover
      · exact hnot hroot
      · exact hroot.not_overruns (hs f hf) hover
    · exact hover.not_endsAt (hs f hf) ((hexact f).1 (hfound.2 (.inr hover))).2
  · intro hnone f
    constructor
    · intro hf
      have hfile := ((mem_filesMatching_normalize hblank hwanted).1 hf).1
      rcases (mem_filesMatching_iff_endsAt hs hblank hwanted hnull hfile (hall f hfile)).1 hf with ⟨hends, -⟩ | hover
      · exact ⟨hfile, hends⟩
      · exact absurd hover (hnone f hfile).2
    · rintro ⟨hf, hends⟩
      exact (mem_filesMatching_iff_endsAt hs hblank hwanted hnull hf (hall f hf)).2 (.inl ⟨hends, (hnone f hf).1⟩)

/-- All of the files end at the wanted path if none overruns it. -/
theorem filesMatching_asserted_iff (hnull : Path.Unbroken wanted) (hall : ∀ f ∈ s.files, Path.Unbroken f.path) :
    (∀ f ∈ s.filesMatching Path.normalize fragment, Path.endsAt f.path wanted = true) ↔
      ∀ f ∈ s.files, ¬ Path.Overruns wanted f.path := by
  constructor
  · intro hends f hf hover
    have hfound := (mem_filesMatching_iff_endsAt hs hblank hwanted hnull hf (hall f hf)).2 (.inr hover)
    exact hover.not_endsAt (hs f hf) (hends f hfound)
  · intro hnone f hf
    have hfile := ((mem_filesMatching_normalize hblank hwanted).1 hf).1
    rcases (mem_filesMatching_iff_endsAt hs hblank hwanted hnull hfile (hall f hfile)).1 hf with ⟨hends, -⟩ | hover
    · exact hends
    · exact absurd hover (hnone f hfile)

end Lexical

/-- In every reachable store whose paths are stored in their normal forms, a fragment that is not blank names the files
that are found for its normal form. -/
theorem filesMatching_matched (hs : s.Reachable (· = Path.normalize)) (hblank : Text.trim fragment ≠ "") :
    s.Matched (Path.normalize (Text.trim fragment)) (s.filesMatching Path.normalize fragment) where
  mem f := by
    rw [mem_filesMatching_normalize hblank rfl, hasEnd_iff, notMem_fragmentEnd]
    rfl
  ascending := filesMatching_ascending hs.sound.toDistinct Path.normalize fragment
  answers hnull _ hf hfnull := mem_filesMatching_iff_endsAt hs.met.normalPaths hblank rfl hnull hf hfnull
  exact hnull hall := filesMatching_exact_iff hs.met.normalPaths hblank rfl hnull hall
  asserted hnull hall := filesMatching_asserted_iff hs.met.normalPaths hblank rfl hnull hall

/-- A unit with a source file at the root and one of the same name below. -/
def rootedUnit : UnitRecord where
  indexFile := "a.ali"
  stamp := 1
  sourceFiles := ["/a.ads", "/src/lib/a.ads"]

/-- The store of a new database that has been brought up to date with that unit. -/
def rootedStore : Store :=
  (fresh.update Path.normalize {} (MemorySource.ofUnits [rootedUnit]).toSource false none).store

/-- With its directory the lower file is found, and only that. The name alone leaves out the file at the root, and that
file's own path names the lower one too. -/
theorem rootedStore_matched :
    Text.trim "lib\\a.ads " ≠ "" ∧
      ((∀ f, f ∈ rootedStore.filesMatching Path.normalize "lib\\a.ads " ↔
        f ∈ rootedStore.files ∧ Path.endsAt f.path "lib/a.ads" = true) ∧
        ⟨2, "/src/lib/a.ads"⟩ ∈ rootedStore.filesMatching Path.normalize "lib\\a.ads ") ∧
      ((∀ f ∈ rootedStore.files, Path.endsAt f.path "a.ads" = true) ∧
        ⟨1, "/a.ads"⟩ ∈ rootedStore.files ∧ ⟨1, "/a.ads"⟩ ∉ rootedStore.filesMatching Path.normalize "a.ads") ∧
      (Path.endsAt "/src/lib/a.ads" "/a.ads" = false ∧
        ⟨2, "/src/lib/a.ads"⟩ ∈ rootedStore.filesMatching Path.normalize "/a.ads") := by
  have hreach : Reachable (· = Path.normalize) rootedStore := .update .fresh rfl fun _ h => by cases h
  have hall : ∀ f ∈ rootedStore.files, Path.Unbroken f.path := by decide +kernel
  have hlib := @filesMatching_matched rootedStore "lib\\a.ads " hreach (by decide +kernel)
  have hname := @filesMatching_matched rootedStore "a.ads" hreach (by decide +kernel)
  have hroot := @filesMatching_matched rootedStore "/a.ads" hreach (by decide +kernel)
  rw [show Path.normalize (Text.trim "lib\\a.ads ") = "lib/a.ads" by decide +kernel] at hlib
  rw [show Path.normalize (Text.trim "a.ads") = "a.ads" by decide +kernel] at hname
  rw [show Path.normalize (Text.trim "/a.ads") = "/a.ads" by decide +kernel] at hroot
  have hexact := (hlib.exact (by decide +kernel) hall).2 (by decide +kernel)
  refine ⟨by decide +kernel, ⟨hexact, (hexact _).2 (by decide +kernel)⟩, ⟨by decide +kernel, by decide +kernel, ?_⟩,
    by decide +kernel, ?_⟩
  · rw [hname.answers (by decide +kernel) _ (by decide +kernel) (by decide +kernel)]
    decide +kernel
  · rw [hroot.answers (by decide +kernel) _ (by decide +kernel) (by decide +kernel)]
    decide +kernel

end Store

end CrossIndex
