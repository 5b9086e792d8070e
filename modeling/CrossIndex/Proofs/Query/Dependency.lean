/-
Dependencies of files over one or more steps. Each round adds the targets of what has been reached, so it either adds
nothing or leaves fewer dependencies whose target has not been reached; there are enough rounds, whatever cycles the
dependencies have. Main statement: the answer is what chains of direct dependencies lead to, forwards or, asked from the
other end, backwards, except the file itself.
-/
import CrossIndex.Proofs.Query.Matching
import Mathlib.Logic.Relation

namespace CrossIndex

namespace IdSet

variable {x : Int} {ids set : List Int}

theorem mem_foldr_insert : x ∈ ids.foldr insert set ↔ x ∈ ids ∨ x ∈ set := by
  induction ids with
  | nil => simp
  | cons id ids ih => rw [List.foldr_cons, mem_insert, ih, List.mem_cons, or_assoc]

theorem pairwise_foldr_insert (h : set.Pairwise (· < ·)) : (ids.foldr insert set).Pairwise (· < ·) := by
  induction ids with
  | nil => exact h
  | cons id ids ih => exact pairwise_insert ih

/-- An ascending list stays as it is when one of its elements is inserted. -/
theorem insert_of_mem (h : set.Pairwise (· < ·)) (hx : x ∈ set) : insert x set = set := by
  induction set with
  | nil => cases hx
  | cons first rest ih =>
    rw [List.pairwise_cons] at h
    unfold insert
    rcases List.mem_cons.1 hx with rfl | hx
    · simp
    · have hlt := h.1 x hx
      rw [if_neg (by omega), if_neg (by omega), ih h.2 hx]

end IdSet

namespace Store

/-- The first file depends directly on the second one. -/
def Imports (s : Store) (f g : SourceFile) : Prop :=
  g ∈ s.imports f.id

/-- The second file depends directly on the first one. -/
def IsImported (s : Store) (f g : SourceFile) : Prop :=
  g ∈ s.importedBy f.id

/-- What a store answers about the dependencies of its files. -/
structure Depending (s : Store) : Prop where
  converse : ∀ f ∈ s.files, ∀ g ∈ s.files, g ∈ s.imports f.id ↔ f ∈ s.importedBy g.id
  forwards : ∀ f ∈ s.files, ∀ g ∈ s.files, g ∈ s.dependsOn f.id ↔ g ≠ f ∧ Relation.TransGen s.Imports f g
  backwards : ∀ f ∈ s.files, ∀ g ∈ s.files, g ∈ s.dependsOn f.id ↔ g ≠ f ∧ Relation.TransGen s.IsImported g f
  known : ∀ id g, g ∈ s.dependsOn id → g ∈ s.files
  ascending : ∀ id, (s.dependsOn id).Pairwise fun a b => Path.bytes a.path < Path.bytes b.path
  ends : ∀ id more, s.dependencyClosure (s.dependencies.length + more) (IdSet.ofList (s.dependencyTargets [id])) =
    s.dependencyClosure s.dependencies.length (IdSet.ofList (s.dependencyTargets [id]))

/-- There is a dependency of the first id on the second one. -/
def Depends (s : Store) (i j : Int) : Prop :=
  ∃ d ∈ s.dependencies, d.source = i ∧ d.target = j

/-- A set of ids with the targets of its dependencies. -/
def grow (s : Store) (set : List Int) : List Int :=
  (s.dependencyTargets set).foldr IdSet.insert set

/-- The number of dependencies whose target is not in a set. -/
def pending (s : Store) (set : List Int) : Nat :=
  (s.dependencies.filter fun d => d.target ∉ set).length

variable {s : Store} {set : List Int} {i j : Int}

/-! ## One round -/

theorem mem_dependencyTargets : j ∈ s.dependencyTargets set ↔ ∃ i ∈ set, s.Depends i j := by
  simp only [dependencyTargets, List.mem_map, List.mem_filter, List.contains_iff_mem, Depends]
  constructor
  · rintro ⟨d, ⟨hd, hsource⟩, rfl⟩
    exact ⟨d.source, hsource, d, hd, rfl, rfl⟩
  · rintro ⟨-, hsource, d, hd, rfl, rfl⟩
    exact ⟨d, ⟨hd, hsource⟩, rfl⟩

theorem mem_grow : j ∈ s.grow set ↔ (∃ i ∈ set, s.Depends i j) ∨ j ∈ set := by
  rw [grow, IdSet.mem_foldr_insert, mem_dependencyTargets]

theorem pending_le (s : Store) (set : List Int) : s.pending set ≤ s.dependencies.length :=
  List.length_filter_le _ _

/-- A set that has the targets of its dependencies does not grow. -/
theorem grow_eq_self (hset : set.Pairwise (· < ·)) (h : s.dependencyTargets set ⊆ set) : s.grow set = set := by
  unfold grow
  generalize s.dependencyTargets set = ids at h
  induction ids with
  | nil => rfl
  | cons id ids ih =>
    obtain ⟨hid, hids⟩ := List.cons_subset.1 h
    rw [List.foldr_cons, ih hids, IdSet.insert_of_mem hset hid]

theorem length_grow_eq_iff (hset : set.Pairwise (· < ·)) :
    (s.grow set).length = set.length ↔ s.dependencyTargets set ⊆ set := by
  refine ⟨fun hlength j hj => ?_, fun h => by rw [grow_eq_self hset h]⟩
  by_contra hnew
  have hnodup : (j :: set).Nodup := List.nodup_cons.2 ⟨hnew, hset.imp ne_of_lt⟩
  have hgrown : j :: set ⊆ s.grow set := by
    intro x hx
    rcases List.mem_cons.1 hx with rfl | hx
    · exact mem_grow.2 (.inl (mem_dependencyTargets.1 hj))
    · exact mem_grow.2 (.inr hx)
  have hle := (List.subperm_of_subset hnodup hgrown).length_le
  rw [List.length_cons] at hle
  omega

/-- A round that adds something reaches the target of a dependency that has not been reached before. -/
theorem pending_grow_lt (h : ¬ s.dependencyTargets set ⊆ set) : s.pending (s.grow set) < s.pending set := by
  obtain ⟨j, hj, hnew⟩ := Set.not_subset.1 h
  obtain ⟨i, hi, d, hd, hsource, rfl⟩ := mem_dependencyTargets.1 hj
  have hgrown : d.target ∈ s.grow set := mem_grow.2 (.inl ⟨i, hi, d, hd, hsource, rfl⟩)
  have hsub : (s.dependencies.filter fun d => d.target ∉ s.grow set).Sublist
      (s.dependencies.filter fun d => d.target ∉ set) := by
    refine List.monotone_filter_right _ fun d hd => ?_
    rw [decide_eq_true_iff] at hd ⊢
    exact fun hmem => hd (mem_grow.2 (.inr hmem))
  refine lt_of_le_of_ne hsub.length_le fun hlength => ?_
  -- the dependency on what is new is counted before the round and not after it
  have hmem : d ∈ s.dependencies.filter fun d => d.target ∉ set :=
    List.mem_filter.2 ⟨hd, decide_eq_true hnew⟩
  rw [← hsub.eq_of_length hlength] at hmem
  exact of_decide_eq_true (List.mem_filter.1 hmem).2 hgrown

/-! ## All rounds -/

theorem dependencyClosure_succ (hset : set.Pairwise (· < ·)) (fuel : Nat) : s.dependencyClosure (fuel + 1) set =
    if s.dependencyTargets set ⊆ set then set else s.dependencyClosure fuel (s.grow set) := by
  rw [dependencyClosure]
  exact if_congr (length_grow_eq_iff hset) rfl rfl

/-- With a round for each dependency whose target has not been reached, nothing is missing in the end. -/
theorem dependencyClosure_closed : ∀ (fuel : Nat) {set : List Int}, set.Pairwise (· < ·) → s.pending set ≤ fuel →
    s.dependencyTargets (s.dependencyClosure fuel set) ⊆ s.dependencyClosure fuel set
  | 0, set, hset, hfuel => by
    by_contra h
    have hlt := pending_grow_lt h
    rw [dependencyClosure] at hlt
    omega
  | fuel + 1, set, hset, hfuel => by
    rw [dependencyClosure_succ hset]
    split
    · assumption
    · rename_i h
      have hlt := pending_grow_lt h
      exact dependencyClosure_closed fuel (IdSet.pairwise_foldr_insert hset) (by omega)

/-- More rounds make no difference then. -/
theorem dependencyClosure_add : ∀ (fuel more : Nat) {set : List Int}, set.Pairwise (· < ·) → s.pending set ≤ fuel →
    s.dependencyClosure (fuel + more) set = s.dependencyClosure fuel set
  | 0, 0, _, _, _ => rfl
  | 0, more + 1, set, hset, hfuel => by
    have hclosed : s.dependencyTargets set ⊆ set := dependencyClosure_closed 0 hset hfuel
    rw [Nat.zero_add, dependencyClosure_succ hset, if_pos hclosed, dependencyClosure]
  | fuel + 1, more, set, hset, hfuel => by
    rw [Nat.add_right_comm, dependencyClosure_succ hset, dependencyClosure_succ hset]
    split
    · rfl
    · rename_i h
      have hlt := pending_grow_lt h
      exact dependencyClosure_add fuel more (IdSet.pairwise_foldr_insert hset) (by omega)

theorem subset_dependencyClosure : ∀ (fuel : Nat) {set : List Int}, set.Pairwise (· < ·) →
    set ⊆ s.dependencyClosure fuel set
  | 0, _, _ => List.Subset.refl _
  | fuel + 1, set, hset => by
    rw [dependencyClosure_succ hset]
    split
    · exact List.Subset.refl _
    · have hgrown : set ⊆ s.grow set := fun _ hx => mem_grow.2 (.inr hx)
      exact List.Subset.trans hgrown (subset_dependencyClosure fuel (IdSet.pairwise_foldr_insert hset))

/-- Only what chains of dependencies lead to is ever reached. -/
theorem reached_of_mem_dependencyClosure : ∀ (fuel : Nat) {set : List Int}, set.Pairwise (· < ·) →
    j ∈ s.dependencyClosure fuel set → ∃ i ∈ set, Relation.ReflTransGen s.Depends i j
  | 0, _, _, hj => ⟨j, hj, .refl⟩
  | fuel + 1, set, hset, hj => by
    rw [dependencyClosure_succ hset] at hj
    split at hj
    · exact ⟨j, hj, .refl⟩
    · obtain ⟨i, hi, hpath⟩ := reached_of_mem_dependencyClosure fuel (IdSet.pairwise_foldr_insert hset) hj
      rcases mem_grow.1 hi with ⟨first, hfirst, hstep⟩ | hi
      · exact ⟨first, hfirst, hpath.head hstep⟩
      · exact ⟨i, hi, hpath⟩

theorem mem_dependencyClosure {fuel : Nat} (hset : set.Pairwise (· < ·)) (hfuel : s.pending set ≤ fuel) :
    j ∈ s.dependencyClosure fuel set ↔ ∃ i ∈ set, Relation.ReflTransGen s.Depends i j := by
  refine ⟨reached_of_mem_dependencyClosure fuel hset, ?_⟩
  rintro ⟨i, hi, hpath⟩
  induction hpath with
  | refl => exact subset_dependencyClosure fuel hset hi
  | tail _ hstep ih => exact dependencyClosure_closed fuel hset hfuel (mem_dependencyTargets.2 ⟨_, ih, hstep⟩)

/-! ## The answers -/

variable {f g : SourceFile}

theorem mem_imports : g ∈ s.imports i ↔ g ∈ s.files ∧ s.Depends i g.id := by
  simp [imports, byPath, Depends]

theorem mem_importedBy : g ∈ s.importedBy i ↔ g ∈ s.files ∧ s.Depends g.id i := by
  simp [importedBy, byPath, Depends, and_comm]

theorem mem_dependsOn : g ∈ s.dependsOn i ↔ g ∈ s.files ∧ g.id ≠ i ∧ Relation.TransGen s.Depends i g.id := by
  have hdirect : ∀ j, j ∈ IdSet.ofList (s.dependencyTargets [i]) ↔ s.Depends i j := fun j => by
    rw [IdSet.mem_ofList, mem_dependencyTargets]
    simp
  have hreached : ∀ j, j ∈ s.dependencyClosure s.dependencies.length (IdSet.ofList (s.dependencyTargets [i])) ↔
      Relation.TransGen s.Depends i j := fun j => by
    rw [mem_dependencyClosure (IdSet.pairwise_ofList _) (pending_le s _), Relation.TransGen.head'_iff]
    simp only [hdirect]
  simp only [dependsOn, byPath, List.mem_mergeSort, List.mem_filter, Bool.and_eq_true, List.contains_iff_mem,
    bne_iff_ne, hreached, and_comm]

/-- A relation between known files is chained as the relation between their ids is, which leads to known files only. -/
theorem transGen_iff (hs : s.Distinct) {R : SourceFile → SourceFile → Prop} {E : Int → Int → Prop}
    (hR : ∀ f g, R f g ↔ g ∈ s.files ∧ E f.id g.id) (hE : ∀ i j, E i j → s.HasFile j) (hg : g ∈ s.files) :
    Relation.TransGen R f g ↔ Relation.TransGen E f.id g.id := by
  refine ⟨fun h => h.lift SourceFile.id fun a b hab => ((hR a b).1 hab).2, fun h => ?_⟩
  -- a chain of ids is a chain of files, whichever file has its last id
  have hchain : ∀ j, Relation.TransGen E f.id j → ∃ g ∈ s.files, g.id = j ∧ Relation.TransGen R f g := by
    intro j hj
    induction hj with
    | single hstep =>
      obtain ⟨g, hg, rfl⟩ := hE _ _ hstep
      exact ⟨g, hg, rfl, .single ((hR f g).2 ⟨hg, hstep⟩)⟩
    | tail _ hstep ih =>
      obtain ⟨a, -, rfl, hchain⟩ := ih
      obtain ⟨g, hg, rfl⟩ := hE _ _ hstep
      exact ⟨g, hg, rfl, hchain.tail ((hR a g).2 ⟨hg, hstep⟩)⟩
  obtain ⟨g', hg', hid, hchain⟩ := hchain g.id h
  rwa [List.inj_on_of_nodup_map hs.fileIds hg' hg hid] at hchain

theorem transGen_imports (hs : s.Sound) (hg : g ∈ s.files) :
    Relation.TransGen s.Imports f g ↔ Relation.TransGen s.Depends f.id g.id := by
  refine transGen_iff hs.toDistinct (fun _ _ => mem_imports) ?_ hg
  rintro i j ⟨d, hd, -, rfl⟩
  exact (hs.dependencies d hd).target

theorem transGen_isImported (hs : s.Sound) (hg : g ∈ s.files) :
    Relation.TransGen s.IsImported f g ↔ Relation.TransGen s.Depends g.id f.id := by
  have hids : Relation.TransGen s.IsImported f g ↔ Relation.TransGen (Function.swap s.Depends) f.id g.id := by
    refine transGen_iff hs.toDistinct (fun _ _ => mem_importedBy) ?_ hg
    rintro i j ⟨d, hd, rfl, -⟩
    exact (hs.dependencies d hd).source
  rw [hids, Relation.transGen_swap]

/-- In every reachable store a file depends on the files that one or more direct dependencies lead to, itself excepted;
they come in the order of the bytes of their paths, each once; and the search for them ends, whatever cycles it
follows. -/
theorem dependencies_transitive {Canonical : (String → String) → Prop} (h : s.Reachable Canonical) : s.Depending := by
  have hs := h.sound
  have hne : ∀ f ∈ s.files, ∀ g ∈ s.files, g.id ≠ f.id ↔ g ≠ f := fun f hf g hg =>
    not_congr ⟨List.inj_on_of_nodup_map hs.fileIds hg hf, congrArg SourceFile.id⟩
  refine
    { converse := fun f hf g hg => ?_
      forwards := fun f hf g hg => ?_
      backwards := fun f hf g hg => ?_
      known := fun _ _ hg => (mem_dependsOn.1 hg).1
      ascending := fun _ => byPath_ascending (hs.paths.sublist (List.filter_sublist.map _))
      ends := fun _ more => dependencyClosure_add _ more (IdSet.pairwise_ofList _) (pending_le s _) }
  · rw [mem_imports, mem_importedBy, and_iff_right hf, and_iff_right hg]
  · rw [mem_dependsOn, transGen_imports hs hg, and_iff_right hg, hne f hf g hg]
  · rw [mem_dependsOn, transGen_isImported hs hf, and_iff_right hg, hne f hf g hg]

/-- Units of two files that depend on each other, the second one also on a third file; the first dependency
comes twice. -/
def ringUnits : List UnitRecord := [
  { indexFile := "a.ali", stamp := 1, sourceFiles := ["a.ads"], dependencies := ["b.ads"] },
  { indexFile := "b.ali", stamp := 1, sourceFiles := ["b.ads"], dependencies := ["c.ads", "a.ads"] },
  { indexFile := "c.ali", stamp := 1, sourceFiles := ["a.ads"], dependencies := ["b.ads"] }]

/-- The store of a new database that has been brought up to date with those units. -/
def ringStore : Store :=
  (fresh.update Path.normalize {} (MemorySource.ofUnits ringUnits).toSource false none).store

/-- A cycle leads through the first file, which is not in the answer; the third file is, although it is reached
only over the second one. -/
theorem ringStore_depending :
    (ringStore.files = [⟨1, "a.ads"⟩, ⟨2, "b.ads"⟩, ⟨3, "c.ads"⟩] ∧
      ringStore.dependencies = [⟨1, 2, 1⟩, ⟨2, 3, 2⟩, ⟨2, 1, 2⟩, ⟨1, 2, 3⟩]) ∧ ringStore.Depending ∧
      (Relation.TransGen ringStore.Imports ⟨1, "a.ads"⟩ ⟨1, "a.ads"⟩ ∧ ⟨1, "a.ads"⟩ ∉ ringStore.dependsOn 1) ∧
      ⟨3, "c.ads"⟩ ∈ ringStore.dependsOn 1 ∧ Relation.TransGen ringStore.IsImported ⟨3, "c.ads"⟩ ⟨1, "a.ads"⟩ := by
  have hreach : Reachable (fun _ => True) ringStore := .update .fresh trivial fun _ h => by cases h
  have hdepending := dependencies_transitive hreach
  have hfiles : ringStore.files = [⟨1, "a.ads"⟩, ⟨2, "b.ads"⟩, ⟨3, "c.ads"⟩] := by decide +kernel
  have hrows : ringStore.dependencies = [⟨1, 2, 1⟩, ⟨2, 3, 2⟩, ⟨2, 1, 2⟩, ⟨1, 2, 3⟩] := by decide +kernel
  have hfirst : ⟨1, "a.ads"⟩ ∈ ringStore.files := by simp [hfiles]
  have hthird : ⟨3, "c.ads"⟩ ∈ ringStore.files := by simp [hfiles]
  have hab : ringStore.Imports ⟨1, "a.ads"⟩ ⟨2, "b.ads"⟩ := mem_imports.2 (by simp [hfiles, hrows, Depends])
  have hba : ringStore.Imports ⟨2, "b.ads"⟩ ⟨1, "a.ads"⟩ := mem_imports.2 (by simp [hfiles, hrows, Depends])
  have hbc : ringStore.Imports ⟨2, "b.ads"⟩ ⟨3, "c.ads"⟩ := mem_imports.2 (by simp [hfiles, hrows, Depends])
  have hself := hdepending.forwards _ hfirst _ hfirst
  have hreached : ⟨3, "c.ads"⟩ ∈ ringStore.dependsOn 1 :=
    (hdepending.forwards _ hfirst _ hthird).2 ⟨by decide, .tail (.single hab) hbc⟩
  exact ⟨⟨hfiles, hrows⟩, hdepending, ⟨.tail (.single hab) hba, fun h => (hself.1 h).1 rfl⟩, hreached,
    ((hdepending.backwards _ hfirst _ hthird).1 hreached).2⟩

end Store

end CrossIndex
