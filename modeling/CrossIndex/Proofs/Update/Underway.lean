/-
A pass from one set of units to the next, step by step. While it runs, the store belongs to some
units of before and some of after; what the units of after say stays in place once it is there,
because no step drops an entity that they mention. Main statements: writing a unit and pruning a unit
keep the invariant, and purging orphans at the end leaves a mirror of the units of after.
-/
import CrossIndex.Proofs.Update.Mirror

namespace CrossIndex

/-- The stamp of a unit rises whenever its record changes. -/
def Newer (old new : List UnitRecord) : Prop :=
  ∀ u ∈ old, ∀ u' ∈ new, u.indexFile = u'.indexFile → u ≠ u' → u.stamp < u'.stamp

/-- The entities that the units of after mention lose nothing: one that was declared is declared, one
that was in use and recorded is recorded, and one that only units of before record was in use. -/
structure Stable (canon : String → String) (old new : List UnitRecord) : Prop where
  declared : ∀ k, Mentioned canon new k → Declared canon old k → Declared canon new k
  recorded : ∀ k, Mentioned canon new k → Recorded canon old k → InUse canon old k → Recorded canon new k
  described : ∀ k, Mentioned canon new k → Recorded canon new k →
    (∃ u ∈ new, u ∉ old ∧ u.Records canon k) ∨ InUse canon old k

/-- Units of before and units of after that one update can take from the one to the other. -/
structure Turn (canon : String → String) (old new : List UnitRecord) : Prop where
  coherent : Coherent canon (old ++ new)
  distinct : (new.map UnitRecord.indexFile).Nodup
  newer : Newer old new
  stable : Stable canon old new

/-- A store in the course of a pass, which belongs to the units `cur`. -/
structure Underway (canon : String → String) (old new cur : List UnitRecord) (s : Store) : Prop
    extends Tracks canon cur s where
  among : ∀ u ∈ cur, u ∈ old ∨ u ∈ new
  stayed : ∀ u ∈ old, u ∈ new → u ∈ cur
  holds : ∀ u ∈ cur, u ∈ new → s.Holds canon u
  described : ∀ k v, s.view? k = some v →
    DescribedBy canon new k v ∨ (DescribedBy canon old k v ∧ InUse canon old k) ∨ (v.kind = "" ∧ v.flags = {})
  known : ∀ k, Mentioned canon new k → (∃ u ∈ cur, u ∈ new ∧ u ∉ old ∧ u.Records canon k) ∨
    (Recorded canon old k ∧ InUse canon old k) → ∃ v, s.view? k = some v ∧ v.kind ≠ ""

/-- The units without the one with an index file. -/
def without (us : List UnitRecord) (file : String) : List UnitRecord :=
  us.filter fun u => u.indexFile ≠ file

variable {canon : String → String} {old new cur : List UnitRecord} {s : Store} {k : EntityKey}

/-! ## Source files tell units apart -/

theorem Coherent.lists_iff {us : List UnitRecord} (h : Coherent canon us) {u u' : UnitRecord} (hu : u ∈ us)
    (hu' : u' ∈ us) (hk : u.Lists canon k) : u'.Lists canon k ↔ u.indexFile = u'.indexFile := by
  unfold UnitRecord.Lists EntityKey.within at hk ⊢
  rcases hd : k.decl with _ | l
  · rw [hd] at hk
    cases hk
  · rw [hd, Option.any_some, List.contains_iff_mem] at hk
    rw [Option.any_some, List.contains_iff_mem]
    exact h.sources u hu u' hu' l.file hk

theorem eq_of_indexFile_eq {us : List UnitRecord} (h : (us.map UnitRecord.indexFile).Nodup) {u u' : UnitRecord}
    (hu : u ∈ us) (hu' : u' ∈ us) (he : u.indexFile = u'.indexFile) : u = u' :=
  List.inj_on_of_nodup_map h hu hu' he

@[simp] theorem mem_without {us : List UnitRecord} {file : String} {u : UnitRecord} :
    u ∈ without us file ↔ u ∈ us ∧ u.indexFile ≠ file := by
  simp [without]

theorem without_distinct {us : List UnitRecord} (h : (us.map UnitRecord.indexFile).Nodup) (file : String) :
    ((without us file).map UnitRecord.indexFile).Nodup :=
  h.sublist (List.filter_sublist.map _)

/-! ## Views before and after a write -/

namespace Store.Replaced

variable {u : UnitRecord} {t : Store} {v v' : EntityView}

theorem view_of_some (h : s.Replaced canon u t) (hk : ¬ s.Drops canon u k) (hv : s.view? k = some v) :
    t.view? k = some (u.putView canon k v) := by
  by_cases ht : u.Touches canon k
  · rw [h.touched k hk ht, hv, Option.getD_some]
  · have hr : ¬ u.Records canon k := fun hr => ht (UnitRecord.touches_iff.2 (.inl hr))
    rw [h.other k hk ht, hv, UnitRecord.putView_of_not_records hr]

/-- An entity after a write comes from one before it, or from a stub. -/
theorem view_inv (h : s.Replaced canon u t) (hv : t.view? k = some v') : ¬ s.Drops canon u k ∧
    ∃ v, (s.view? k = some v ∨ v = .stub) ∧ v' = u.putView canon k v := by
  have hk : ¬ s.Drops canon u k := by
    intro hk
    rw [h.dropped k hk] at hv
    cases hv
  refine ⟨hk, ?_⟩
  rcases hs : s.view? k with _ | v
  · by_cases ht : u.Touches canon k
    · rw [h.touched k hk ht, hs, Option.some.injEq] at hv
      exact ⟨.stub, .inr rfl, hv.symm⟩
    · rw [h.other k hk ht, hs] at hv
      cases hv
  · rw [h.view_of_some hk hs, Option.some.injEq] at hv
    exact ⟨v, .inl rfl, hv.symm⟩

end Store.Replaced

namespace Underway

theorem mem_all (h : Underway canon old new cur s) {u : UnitRecord} (hu : u ∈ cur) : u ∈ old ++ new :=
  List.mem_append.2 (h.among u hu)

/-- At the start the units are those of before. -/
theorem start (hT : Turn canon old new) (h : Mirrors canon old s) : Underway canon old new old s := by
  refine ⟨h.toTracks, fun u hu => .inl hu, fun u hu _ => hu, fun u hu _ => h.holds u hu, fun k v hv => ?_,
    fun k _ hk => ?_⟩
  · rcases h.described k v hv with hdesc | ⟨-, hstub⟩
    · exact .inr (.inl ⟨hdesc, (h.lives k).1 (Option.isSome_iff_exists.2 ⟨v, hv⟩)⟩)
    · exact .inr (.inr hstub)
  · rcases hk with ⟨u, ho, -, hno, -⟩ | ⟨hrec, hlive⟩
    · exact absurd ho hno
    · obtain ⟨v, hv⟩ := Option.isSome_iff_exists.1 ((h.lives k).2 hlive)
      refine ⟨v, hv, ?_⟩
      rcases h.described k v hv with ⟨u, hu, r, hr, -, hkind, -⟩ | ⟨hno, -⟩
      · rw [hkind]
        exact hT.coherent.kinds u (List.mem_append_left _ hu) r hr
      · exact absurd hrec hno

/-- What a current unit declares and the units of after mention, the unit with the same index file
declares after. -/
theorem declared_after (hT : Turn canon old new) (h : Underway canon old new cur s) {u : UnitRecord} (hu : u ∈ cur)
    (hk : u.Declares canon k) (hm : Mentioned canon new k) :
    ∃ u' ∈ new, u'.indexFile = u.indexFile ∧ u'.Declares canon k := by
  rcases h.among u hu with ho | hn
  · obtain ⟨u', hu', hk'⟩ := hT.stable.declared k hm ⟨u, ho, hk⟩
    have hall' : u' ∈ old ++ new := List.mem_append_right _ hu'
    exact ⟨u', hu', (hT.coherent.lists_iff hall' (h.mem_all hu) hk'.2).1 hk.2, hk'⟩
  · exact ⟨u, hn, rfl, hk⟩

/-- A write drops nothing that the units of after mention. -/
theorem not_drops (hT : Turn canon old new) (h : Underway canon old new cur s) {u : UnitRecord} (hu : u ∈ new)
    (hm : Mentioned canon new k) : ¬ s.Drops canon u k := by
  rintro ⟨⟨v, hv, ho⟩, hno⟩
  obtain ⟨u₀, hu₀, hfile, hk⟩ := h.owned k v u.indexFile hv ho
  obtain ⟨u', hu', hfile', hk'⟩ := h.declared_after hT hu₀ hk hm
  obtain rfl := eq_of_indexFile_eq hT.distinct hu' hu (hfile'.trans hfile)
  exact hno ⟨UnitRecord.touches_iff.2 (.inl hk'.1), hk'.2⟩

/-- An entity that a unit of after owns and does not drop when it is written, it declares. -/
theorem still_declares (hT : Turn canon old new) (h : Underway canon old new cur s) {u : UnitRecord} (hu : u ∈ new)
    (hd : ¬ s.Drops canon u k) {v : EntityView} (hv : s.view? k = some v) (ho : v.owner = some u.indexFile) :
    u.Declares canon k := by
  have hkeep : u.Touches canon k ∧ u.Lists canon k := by
    by_contra hno
    exact hd ⟨⟨v, hv, ho⟩, hno⟩
  rcases UnitRecord.touches_iff.1 hkeep.1 with hr | hm
  · exact ⟨hr, hkeep.2⟩
  · -- a unit of after mentions the entity, so its declaration has not been lost
    obtain ⟨u₀, hu₀, hfile, hk⟩ := h.owned k v u.indexFile hv ho
    obtain ⟨u', hu', hfile', hk'⟩ := h.declared_after hT hu₀ hk ⟨u, hu, hm⟩
    obtain rfl := eq_of_indexFile_eq hT.distinct hu' hu (hfile'.trans hfile)
    exact hk'

/-- Writing a unit of after. -/
theorem write_tracks (hT : Turn canon old new) (h : Underway canon old new cur s)
    {u : UnitRecord} (hu : u ∈ new) :
    Tracks canon (u :: without cur u.indexFile) (s.replaceUnit canon u) := by
  have hall : u ∈ old ++ new := List.mem_append_right _ hu
  have R := Store.replaceUnit_spec h.sound (hT.coherent.valid u hall) (hT.coherent.alike u hall)
  obtain ⟨id, hunits⟩ := R.units
  refine ⟨R.sound, ?_, fun row hrow => ?_, fun u' hu' => ?_, fun u' hu' k hk => ?_, fun k v' file hv' ho => ?_,
    fun k v' hv' => ?_⟩
  · rw [List.map_cons, List.nodup_cons]
    refine ⟨fun hm => ?_, without_distinct h.distinct _⟩
    obtain ⟨u', hu', he⟩ := List.mem_map.1 hm
    exact (mem_without.1 hu').2 he
  · rcases (hunits row).1 hrow with rfl | ⟨hrow, hne⟩
    · exact ⟨u, List.mem_cons_self, rfl⟩
    · obtain ⟨u', hu', he⟩ := h.units row hrow
      refine ⟨u', List.mem_cons_of_mem _ (mem_without.2 ⟨hu', fun hf => hne ?_⟩), he⟩
      rw [he]
      exact hf
  · rcases List.mem_cons.1 hu' with rfl | hu'
    · exact ⟨_, (hunits _).2 (.inl rfl), rfl⟩
    · obtain ⟨hu', hne⟩ := mem_without.1 hu'
      obtain ⟨row, hrow, he⟩ := h.entered u' hu'
      exact ⟨row, (hunits row).2 (.inr ⟨hrow, by rw [he]; exact hne⟩), he⟩
  · rcases List.mem_cons.1 hu' with rfl | hu'
    · have ht : u'.Touches canon k := UnitRecord.touches_iff.2 (.inl hk.1)
      have hd : ¬ s.Drops canon u' k := fun hd => hd.2 ⟨ht, hk.2⟩
      obtain ⟨r, hr, -, hput⟩ := UnitRecord.putView_declares (v := (s.view? k).getD .stub) hk
      exact ⟨_, R.touched k hd ht, by rw [hput], by rw [hput]; exact hT.coherent.kinds u' hall r hr⟩
    · obtain ⟨hu', hne⟩ := mem_without.1 hu'
      obtain ⟨v, hv, ho, hkind⟩ := h.owns u' hu' k hk
      -- the entity belongs to another unit, which the write does not touch
      have hd : ¬ s.Drops canon u k := by
        rintro ⟨⟨v', hv', ho'⟩, -⟩
        rw [hv, Option.some.injEq] at hv'
        rw [← hv', ho, Option.some.injEq] at ho'
        exact hne ho'
      have hnot : ¬ u.Declares canon k := fun hk' =>
        hne ((hT.coherent.lists_iff (h.mem_all hu') hall hk.2).1 hk'.2)
      refine ⟨_, R.view_of_some hd hv, ?_, UnitRecord.putView_known (hT.coherent.kinds u hall) (.inl hkind)⟩
      rw [UnitRecord.putView_owner hnot, ho]
  · obtain ⟨hd, v, hv, rfl⟩ := R.view_inv hv'
    by_cases hk : u.Declares canon k
    · obtain ⟨r, -, -, hput⟩ := UnitRecord.putView_declares (v := v) hk
      rw [hput, Option.some.injEq] at ho
      exact ⟨u, List.mem_cons_self, ho, hk⟩
    · rw [UnitRecord.putView_owner hk] at ho
      rcases hv with hv | rfl
      · obtain ⟨u₀, hu₀, hfile, hk₀⟩ := h.owned k v file hv ho
        have hown : u₀.indexFile = u.indexFile → v.owner = some u.indexFile := fun he => by rw [ho, ← hfile, he]
        exact ⟨u₀, List.mem_cons_of_mem _ (mem_without.2 ⟨hu₀, fun he => hk (h.still_declares hT hu hd hv (hown he))⟩),
          hfile, hk₀⟩
      · cases ho
  · obtain ⟨-, v, hv, rfl⟩ := R.view_inv hv'
    refine UnitRecord.putView_dynamic ?_
    rcases hv with hv | rfl
    · exact h.plain k v hv
    · rfl

theorem write (hT : Turn canon old new) (h : Underway canon old new cur s)
    {u : UnitRecord} (hu : u ∈ new) :
    Underway canon old new (u :: without cur u.indexFile) (s.replaceUnit canon u) := by
  have hall : u ∈ old ++ new := List.mem_append_right _ hu
  have R := Store.replaceUnit_spec h.sound (hT.coherent.valid u hall) (hT.coherent.alike u hall)
  have hspare : ∀ u' ∈ new, ∀ k, u'.Mentions canon k → ¬ s.Drops canon u k := fun u' hu' k hk =>
    h.not_drops hT hu ⟨u', hu', hk⟩
  refine ⟨h.write_tracks hT hu, fun u' hu' => ?_, fun u' ho hn => ?_, fun u' hu' hn => ?_, fun k v' hv' => ?_,
    fun k hm hk => ?_⟩
  · rcases List.mem_cons.1 hu' with rfl | hu'
    · exact .inr hu
    · exact h.among u' (mem_without.1 hu').1
  · by_cases he : u'.indexFile = u.indexFile
    · rw [eq_of_indexFile_eq hT.distinct hn hu he]
      exact List.mem_cons_self
    · exact List.mem_cons_of_mem _ (mem_without.2 ⟨h.stayed u' ho hn, he⟩)
  · rcases List.mem_cons.1 hu' with rfl | hu'
    · exact R.holds (hspare u' hu)
    · obtain ⟨hu', hne⟩ := mem_without.1 hu'
      exact R.others u' hne (h.holds u' hu' hn) (hspare u' hn)
  · obtain ⟨-, v, hv, rfl⟩ := R.view_inv hv'
    rcases @UnitRecord.putView_origin canon k u v with ⟨hkind, hflags⟩ | ⟨u', hu', r, hr, hdesc⟩
    · rw [DescribedBy, DescribedBy, hkind, hflags]
      rcases hv with hv | rfl
      · exact h.described k v hv
      · exact .inr (.inr ⟨rfl, rfl⟩)
    · rw [List.mem_singleton.1 hu'] at hr
      exact .inl ⟨u, hu, r, hr, hdesc⟩
  · -- what is known stays known: a record may put another kind in its place, but none that is empty
    have hd := h.not_drops hT hu hm
    have hkinds := hT.coherent.kinds u hall
    by_cases hr : u.Records canon k
    · exact ⟨_, R.touched k hd (UnitRecord.touches_iff.2 (.inl hr)), UnitRecord.putView_known hkinds (.inr hr)⟩
    · have hbefore : ∃ v, s.view? k = some v ∧ v.kind ≠ "" := by
        refine h.known k hm (hk.imp_left ?_)
        rintro ⟨u', hu', hn, ho, hr'⟩
        rcases List.mem_cons.1 hu' with rfl | hu'
        · exact absurd hr' hr
        · exact ⟨u', (mem_without.1 hu').1, hn, ho, hr'⟩
      obtain ⟨v, hv, hkind⟩ := hbefore
      exact ⟨_, R.view_of_some hd hv, UnitRecord.putView_known hkinds (.inl hkind)⟩

/-- Pruning a unit that is not among those of after. -/
theorem prune (hT : Turn canon old new) (h : Underway canon old new cur s) {row : UnitRow} (hrow : row ∈ s.units)
    (hfile : ∀ u ∈ new, u.indexFile ≠ row.indexFile) :
    Underway canon old new (without cur row.indexFile) (s.deleteUnit row.id) := by
  have hview := fun k => Store.view?_deleteUnit h.sound hrow k
  have hinv : ∀ {k v}, (s.deleteUnit row.id).view? k = some v → s.view? k = some v ∧ v.owner ≠ some row.indexFile := by
    intro k v hv
    rw [hview, Option.filter_eq_some_iff] at hv
    exact ⟨hv.1, by simpa using hv.2⟩
  have hkeep : ∀ {k v}, s.view? k = some v → v.owner ≠ some row.indexFile → (s.deleteUnit row.id).view? k = some v := by
    intro k v hv ho
    rw [hview, Option.filter_eq_some_iff]
    exact ⟨hv, by simpa using ho⟩
  -- what goes is declared by the pruned unit, so no unit of after mentions it
  have hspare : ∀ {k v}, Mentioned canon new k → s.view? k = some v → v.owner ≠ some row.indexFile := by
    intro k v hm hv ho
    obtain ⟨u, hu, hf, hk⟩ := h.owned k v _ hv ho
    obtain ⟨u', hu', hf', -⟩ := h.declared_after hT hu hk hm
    exact hfile u' hu' (hf'.trans hf)
  refine ⟨⟨Store.deleteUnit_sound h.sound row.id, without_distinct h.distinct _, fun r hr => ?_, fun u hu => ?_,
    fun u hu k hk => ?_, fun k v file hv ho => ?_, fun k v hv => h.plain k v (hinv hv).1⟩, fun u hu => ?_,
    fun u ho hn => ?_, fun u hu hn => ?_, fun k v hv => h.described k v (hinv hv).1, fun k hm hk => ?_⟩
  · obtain ⟨hr, hne⟩ := (Store.mem_deleteUnit h.sound hrow).1 hr
    obtain ⟨u, hu, he⟩ := h.units r hr
    refine ⟨u, mem_without.2 ⟨hu, fun hf => hne ?_⟩, he⟩
    rw [he]
    exact hf
  · obtain ⟨hu, hne⟩ := mem_without.1 hu
    obtain ⟨r, hr, he⟩ := h.entered u hu
    exact ⟨r, (Store.mem_deleteUnit h.sound hrow).2 ⟨hr, by rw [he]; exact hne⟩, he⟩
  · obtain ⟨hu, hne⟩ := mem_without.1 hu
    obtain ⟨v, hv, ho, hkind⟩ := h.owns u hu k hk
    exact ⟨v, hkeep hv (by simpa [ho] using hne), ho, hkind⟩
  · obtain ⟨hv, hne⟩ := hinv hv
    obtain ⟨u, hu, hf, hk⟩ := h.owned k v file hv ho
    exact ⟨u, mem_without.2 ⟨hu, fun he => hne (by rw [ho, ← hf, he])⟩, hf, hk⟩
  · exact h.among u (mem_without.1 hu).1
  · exact mem_without.2 ⟨h.stayed u ho hn, hfile u hn⟩
  · exact (h.holds u (mem_without.1 hu).1 hn).deleteUnit h.sound hrow (hfile u hn).symm fun k hk v hv =>
      hspare ⟨u, hn, hk⟩ hv
  · obtain ⟨v, hv, hkind⟩ := h.known k hm (hk.imp_left fun ⟨u, hu, hrest⟩ => ⟨u, (mem_without.1 hu).1, hrest⟩)
    exact ⟨v, hkeep hv (hspare hm hv), hkind⟩

/-! ## The end of a pass -/

/-- What a unit of after records of an entity that they mention is known of it in the end. -/
theorem known_after (hT : Turn canon old new) (h : Underway canon old new cur s) (hmem : ∀ u, u ∈ cur ↔ u ∈ new)
    (hlive : InUse canon new k) (hk : Recorded canon new k) :
    ∃ v, s.view? k = some v ∧ v.kind ≠ "" := by
  rcases hlive with hm | ⟨u, hu, hd⟩
  · refine h.known k hm ?_
    obtain ⟨u, hu, hr⟩ := hk
    by_cases ho : u ∈ old
    · rcases hT.stable.described k hm ⟨u, hu, hr⟩ with ⟨u', hu', ho', hr'⟩ | hlive
      · exact .inl ⟨u', (hmem u').2 hu', hu', ho', hr'⟩
      · exact .inr ⟨⟨u, ho, hr⟩, hlive⟩
    · exact .inl ⟨u, (hmem u).2 hu, hu, ho, hr⟩
  · obtain ⟨v, hv, -, hkind⟩ := h.owns u ((hmem u).2 hu) k hd
    exact ⟨v, hv, hkind⟩

theorem described_after (hT : Turn canon old new) (h : Underway canon old new cur s) (hmem : ∀ u, u ∈ cur ↔ u ∈ new)
    (hlive : InUse canon new k) {v : EntityView} (hv : s.view? k = some v) :
    DescribedBy canon new k v ∨ (¬ Recorded canon new k ∧ v.kind = "" ∧ v.flags = {}) := by
  by_cases hk : Recorded canon new k
  · left
    obtain ⟨v', hv', hkind⟩ := h.known_after hT hmem hlive hk
    obtain rfl : v' = v := Option.some.inj (hv'.symm.trans hv)
    obtain ⟨u', hu', hr⟩ := hk
    obtain ⟨r', hr', hkey'⟩ := UnitRecord.records_iff.1 hr
    rcases h.described k v' hv with hdesc | ⟨⟨u, hu, r, hr, hkey, hkind', hflags⟩, -⟩ | ⟨hempty, -⟩
    · exact hdesc
    · obtain ⟨h1, h2⟩ := hT.coherent.agree u (List.mem_append_left _ hu) u' (List.mem_append_right _ hu') r hr r' hr'
        (hkey.trans hkey'.symm)
      exact ⟨u', hu', r', hr', hkey', hkind'.trans h1, hflags.trans h2⟩
    · exact absurd hempty hkind
  · right
    refine ⟨hk, ?_⟩
    rcases h.described k v hv with ⟨u, hu, r, hr, hkey, -⟩ | ⟨⟨u, hu, r, hr, hkey, -⟩, hold⟩ | hstub
    · exact absurd ⟨u, hu, UnitRecord.records_iff.2 ⟨r, hr, hkey⟩⟩ hk
    · -- a record of before would be one of after as well, since the entity is still in use
      rcases hlive with hm | ⟨u', hu', hd⟩
      · exact absurd (hT.stable.recorded k hm ⟨u, hu, UnitRecord.records_iff.2 ⟨r, hr, hkey⟩⟩ hold) hk
      · exact absurd ⟨u', hu', hd.1⟩ hk
    · exact hstub

/-- With the units of after all written and the others pruned, purging leaves a mirror. -/
theorem finish (hT : Turn canon old new) (h : Underway canon old new cur s) (hnew : ∀ u ∈ new, u ∈ cur)
    (hcur : ∀ u ∈ cur, ∃ u' ∈ new, u'.indexFile = u.indexFile) : Mirrors canon new s.purgeOrphans := by
  have hmem : ∀ u, u ∈ cur ↔ u ∈ new := by
    intro u
    refine ⟨fun hu => ?_, hnew u⟩
    obtain ⟨u', hu', hf⟩ := hcur u hu
    rw [← eq_of_indexFile_eq h.distinct (hnew u' hu') hu hf]
    exact hu'
  have htracks : Tracks canon new s := by
    obtain ⟨hs, -, hunits, hentered, howns, howned, hplain⟩ := h.toTracks
    refine ⟨hs, hT.distinct, ?_, ?_, ?_, ?_, hplain⟩
    all_goals simpa only [← hmem]
  have hholds : ∀ u ∈ new, s.Holds canon u := fun u hu => h.holds u (hnew u hu) hu
  have hview : ∀ {k v}, s.purgeOrphans.view? k = some v ↔
      s.view? k = some v ∧ InUse canon new k := htracks.view?_purgeOrphans hholds
  refine ⟨⟨Store.purgeOrphans_sound h.sound, hT.distinct, htracks.units, htracks.entered, fun u hu k hk => ?_,
    fun k v file hv => htracks.owned k v file (hview.1 hv).1, fun k v hv => h.plain k v (hview.1 hv).1⟩,
    fun u hu => (hholds u hu).purgeOrphans h.sound, fun k => ?_, fun k v hv => ?_⟩
  · obtain ⟨v, hv, hrest⟩ := htracks.owns u hu k hk
    exact ⟨v, hview.2 ⟨hv, .inr ⟨u, hu, hk⟩⟩, hrest⟩
  · rw [Option.isSome_iff_exists]
    constructor
    · rintro ⟨v, hv⟩
      exact (hview.1 hv).2
    · intro hlive
      obtain ⟨v, hv⟩ := htracks.view?_of_inUse hholds hlive
      exact ⟨v, hview.2 ⟨hv, hlive⟩⟩
  · obtain ⟨hv, hlive⟩ := hview.1 hv
    exact h.described_after hT hmem hlive hv

end Underway

end CrossIndex
