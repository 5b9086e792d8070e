/-
A store that says what some units say, and nothing else. Such a store has the entities that a unit
mentions or declares, with the kind and the flags that a unit records, and the rows of every unit.
Main statement: two stores that mirror the same units have the same content, whatever their ids and
the order of their rows.
-/
import CrossIndex.Proofs.Store.View

namespace CrossIndex

section Units

variable (canon : String → String) (us : List UnitRecord) (k : EntityKey)

/-- A unit declares an entity that it records and whose declaration lies in one of its source files. -/
def UnitRecord.Declares (u : UnitRecord) : Prop := u.Records canon k ∧ u.Lists canon k

def Recorded : Prop := ∃ u ∈ us, u.Records canon k

def Mentioned : Prop := ∃ u ∈ us, u.Mentions canon k

def Declared : Prop := ∃ u ∈ us, u.Declares canon k

/-- A unit mentions or declares the entity. -/
def InUse : Prop := Mentioned canon us k ∨ Declared canon us k

/-- An entity has the kind and the flags that a unit records for its key. -/
def DescribedBy (v : EntityView) : Prop :=
  ∃ u ∈ us, ∃ r ∈ u.entities, r.key.stored canon = k ∧ v.kind = r.kind ∧ v.flags = r.flags

end Units

/-- Units that go together: they have no defects and no checksums, two of them share a source file
exactly if they have the same index file, and all records of a key have the same kind, which is known,
and the same flags. -/
structure Coherent (canon : String → String) (us : List UnitRecord) : Prop where
  valid : ∀ u ∈ us, u.check = .ok ()
  alike : ∀ u ∈ us, EntityKey.Alike canon (u.recorded ++ u.mentioned)
  unsummed : ∀ u ∈ us, u.checksum = none
  sources : ∀ u ∈ us, ∀ u' ∈ us, ∀ path ∈ u.sourceFiles.map canon,
    path ∈ u'.sourceFiles.map canon ↔ u.indexFile = u'.indexFile
  kinds : ∀ u ∈ us, ∀ r ∈ u.entities, r.kind ≠ ""
  agree : ∀ u ∈ us, ∀ u' ∈ us, ∀ r ∈ u.entities, ∀ r' ∈ u'.entities, r.key.stored canon = r'.key.stored canon →
    r.kind = r'.kind ∧ r.flags = r'.flags

variable {canon : String → String} {us : List UnitRecord} {s t : Store} {k : EntityKey}

/-! ## What the records of a unit do to a view -/

namespace UnitRecord

variable {u : UnitRecord} {v : EntityView}

theorem records_iff : u.Records canon k ↔ ∃ r ∈ u.entities, r.key.stored canon = k := by
  simp [Records, recorded]

theorem touches_iff : u.Touches canon k ↔ u.Records canon k ∨ u.Mentions canon k := by
  simp only [Touches, Records, Mentions, List.map_append, List.mem_append]

/-- A property that every record of the key keeps. -/
theorem putView_keep {P : EntityView → Prop} (hv : P v) (hstep : ∀ r ∈ u.entities, r.key.stored canon = k → ∀ v, P v →
    P (r.putView (k.within (u.sourceFiles.map canon)) u.indexFile v)) : P (u.putView canon k v) := by
  unfold putView
  generalize u.entities = rs at hstep
  induction rs generalizing v with
  | nil => exact hv
  | cons r rs ih =>
    rw [List.foldl_cons]
    refine ih ?_ fun r' hr' => hstep r' (List.mem_cons_of_mem _ hr')
    split
    · rename_i hr
      exact hstep r List.mem_cons_self hr v hv
    · exact hv

/-- A property that every record of the key brings about. -/
theorem putView_make {P : EntityView → Prop} (hk : u.Records canon k) (hstep : ∀ r ∈ u.entities,
    r.key.stored canon = k → ∀ v, P (r.putView (k.within (u.sourceFiles.map canon)) u.indexFile v)) :
    P (u.putView canon k v) := by
  obtain ⟨r₀, hr₀, hkey⟩ := records_iff.1 hk
  -- from the first record of the key on the property holds
  have hsplit : ∀ (rs : List EntityRecord) (v : EntityView), (∀ r ∈ rs, r ∈ u.entities) → P v ∨ r₀ ∈ rs →
      P (rs.foldl (fun v r => if r.key.stored canon = k then
        r.putView (k.within (u.sourceFiles.map canon)) u.indexFile v else v) v) := by
    intro rs
    induction rs with
    | nil => exact fun v _ h => h.resolve_right List.not_mem_nil
    | cons r rs ih =>
      intro v hrs h
      rw [List.foldl_cons]
      apply ih _ fun r' hr' => hrs r' (List.mem_cons_of_mem _ hr')
      by_cases hr : r.key.stored canon = k
      · rw [if_pos hr]
        exact .inl (hstep r (hrs r List.mem_cons_self) hr v)
      · rw [if_neg hr]
        refine h.imp_right fun h => (List.mem_cons.1 h).resolve_left ?_
        rintro rfl
        exact hr hkey
  exact hsplit u.entities v (fun _ h => h) (.inr hr₀)

theorem putView_of_not_records (hk : ¬ u.Records canon k) : u.putView canon k v = v :=
  putView_keep (P := fun v' => v' = v) rfl fun r hr hkey => absurd (records_iff.2 ⟨r, hr, hkey⟩) hk

/-- A unit gives an entity that it declares an owner and a description. -/
theorem putView_declares (hk : u.Declares canon k) : ∃ r ∈ u.entities, r.key.stored canon = k ∧
    u.putView canon k v = ⟨r.kind, r.flags, some u.indexFile, false⟩ := by
  refine putView_make (P := fun v' => ∃ r ∈ u.entities, r.key.stored canon = k ∧
    v' = ⟨r.kind, r.flags, some u.indexFile, false⟩) hk.1 fun r hr hkey v' => ⟨r, hr, hkey, ?_⟩
  rw [EntityRecord.putView, show k.within (u.sourceFiles.map canon) = true from hk.2]
  simp

/-- The declaration of an entity that a unit records but does not declare lies elsewhere. -/
theorem within_of_not_declares (hk : ¬ u.Declares canon k) {r : EntityRecord} (hr : r ∈ u.entities)
    (hkey : r.key.stored canon = k) : k.within (u.sourceFiles.map canon) = false := by
  rw [← Bool.not_eq_true]
  exact fun h => hk ⟨records_iff.2 ⟨r, hr, hkey⟩, h⟩

theorem putView_owner (hk : ¬ u.Declares canon k) : (u.putView canon k v).owner = v.owner := by
  refine putView_keep (P := fun v' => v'.owner = v.owner) rfl fun r hr hkey v' hv => ?_
  rw [EntityRecord.putView, within_of_not_declares hk hr hkey]
  split
  · exact hv
  · exact hv

theorem putView_dynamic (hv : v.dynamic = false) : (u.putView canon k v).dynamic = false := by
  refine putView_keep (P := fun v' => v'.dynamic = false) hv fun r _ _ v' hv => ?_
  unfold EntityRecord.putView
  split
  · simp [hv]
  · exact hv

/-- Kind and flags stay, or a record of the unit gives both. -/
theorem putView_origin : ((u.putView canon k v).kind = v.kind ∧ (u.putView canon k v).flags = v.flags) ∨
    DescribedBy canon [u] k (u.putView canon k v) := by
  refine putView_keep (P := fun v' => (v'.kind = v.kind ∧ v'.flags = v.flags) ∨ DescribedBy canon [u] k v')
    (.inl ⟨rfl, rfl⟩) fun r hr hkey v' hv => ?_
  unfold EntityRecord.putView
  split
  · exact .inr ⟨u, List.mem_singleton_self u, r, hr, hkey, rfl, rfl⟩
  · exact hv

theorem putView_known (hkinds : ∀ r ∈ u.entities, r.kind ≠ "") (h : v.kind ≠ "" ∨ u.Records canon k) :
    (u.putView canon k v).kind ≠ "" := by
  have hput : ∀ r ∈ u.entities, ∀ v' : EntityView,
      (r.putView (k.within (u.sourceFiles.map canon)) u.indexFile v').kind ≠ "" := by
    intro r hr v'
    unfold EntityRecord.putView
    split
    · exact hkinds r hr
    · rename_i hv
      intro he
      simp [he] at hv
  rcases h with hv | hk
  · exact putView_keep (P := fun v' => v'.kind ≠ "") hv fun r hr _ v' _ => hput r hr v'
  · exact putView_make (P := fun v' => v'.kind ≠ "") hk fun r hr _ v' => hput r hr v'

end UnitRecord

/-! ## Mirrors -/

/-- The units of a store are among some given ones. -/
structure Among (us : List UnitRecord) (s : Store) : Prop where
  sound : s.Sound
  distinct : (us.map UnitRecord.indexFile).Nodup
  units : ∀ row ∈ s.units, ∃ u ∈ us, row.indexFile = u.indexFile

/-- The units of a store are some given ones, each owns what it declares and nothing else, and no
entity was inserted explicitly. -/
structure Tracks (canon : String → String) (us : List UnitRecord) (s : Store) : Prop where
  sound : s.Sound
  distinct : (us.map UnitRecord.indexFile).Nodup
  units : ∀ row ∈ s.units, ∃ u ∈ us, row = ⟨row.id, u.indexFile, u.stamp, u.checksum, false⟩
  entered : ∀ u ∈ us, ∃ row ∈ s.units, row.indexFile = u.indexFile
  owns : ∀ u ∈ us, ∀ k, u.Declares canon k → ∃ v, s.view? k = some v ∧ v.owner = some u.indexFile ∧ v.kind ≠ ""
  owned : ∀ k v file, s.view? k = some v → v.owner = some file → ∃ u ∈ us, u.indexFile = file ∧ u.Declares canon k
  plain : ∀ k v, s.view? k = some v → v.dynamic = false

/-- A store that says what some given units say. -/
structure Mirrors (canon : String → String) (us : List UnitRecord) (s : Store) : Prop extends Tracks canon us s where
  holds : ∀ u ∈ us, s.Holds canon u
  lives : ∀ k, (s.view? k).isSome ↔ InUse canon us k
  described : ∀ k v, s.view? k = some v →
    DescribedBy canon us k v ∨ (¬ Recorded canon us k ∧ v.kind = "" ∧ v.flags = {})

theorem fresh_mirrors (canon : String → String) : Mirrors canon [] Store.fresh := by
  have hview : ∀ k, Store.fresh.view? k = none := fun _ => rfl
  refine ⟨⟨Store.fresh_sound, List.nodup_nil, ?_, ?_, ?_, ?_, ?_⟩, ?_, ?_, ?_⟩
  · exact fun row h => absurd h List.not_mem_nil
  · exact fun u h => absurd h List.not_mem_nil
  · exact fun u h => absurd h List.not_mem_nil
  · intro k v file h
    rw [hview] at h
    cases h
  · intro k v h
    rw [hview] at h
    cases h
  · exact fun u h => absurd h List.not_mem_nil
  · intro k
    rw [hview]
    simp [InUse, Mentioned, Declared]
  · intro k v h
    rw [hview] at h
    cases h

theorem Mirrors.bump (h : Mirrors canon us s) : Mirrors canon us s.bump := by
  obtain ⟨⟨hs, hdistinct, hunits, hentered, howns, howned, hplain⟩, hholds, hlives, hdescribed⟩ := h
  refine ⟨⟨Store.bump_sound hs, hdistinct, hunits, hentered, howns, howned, hplain⟩, fun u hu => ?_, hlives, hdescribed⟩
  exact ⟨(hholds u hu).references, (hholds u hu).relations, (hholds u hu).dependencies⟩

/-- Only which units there are counts, not their order. -/
theorem Mirrors.of_mem_iff {us' : List UnitRecord} (h : Mirrors canon us s)
    (hd : (us'.map UnitRecord.indexFile).Nodup) (hmem : ∀ u, u ∈ us' ↔ u ∈ us) : Mirrors canon us' s := by
  obtain ⟨⟨hs, -, hunits, hentered, howns, howned, hplain⟩, hholds, hlives, hdescribed⟩ := h
  refine ⟨⟨hs, hd, ?_, ?_, ?_, ?_, hplain⟩, ?_, ?_, ?_⟩
  all_goals simpa only [InUse, Mentioned, Declared, Recorded, DescribedBy, hmem]

/-! ## Orphans -/

theorem Tracks.among (h : Tracks canon us s) : Among us s := by
  refine ⟨h.sound, h.distinct, fun row hrow => ?_⟩
  obtain ⟨u, hu, he⟩ := h.units row hrow
  exact ⟨u, hu, by rw [he]⟩

theorem Among.indexFileAt? (h : Among us s) {id : Int} (hid : s.HasUnit id) :
    ∃ u ∈ us, s.indexFileAt? id = some u.indexFile := by
  obtain ⟨row, hrow, rfl⟩ := hid
  obtain ⟨u, hu, he⟩ := h.units row hrow
  exact ⟨u, hu, (Store.indexFileAt?_eq_some h.sound).2 ⟨row, hrow, rfl, he⟩⟩

theorem Among.mentioned_of_isMentioned (h : Among us s)
    (hholds : ∀ u ∈ us, s.Holds canon u) {id : Int} (hid : s.Names id k) (hm : s.isMentioned id = true) :
    Mentioned canon us k := by
  have hsame : ∀ u ∈ us, (∃ k', u.Mentions canon k' ∧ s.Names id k') → Mentioned canon us k := by
    rintro u hu ⟨k', hk', hid'⟩
    rw [(hid.id_eq_iff h.sound hid').1 rfl]
    exact ⟨u, hu, hk'⟩
  simp only [Store.isMentioned, Bool.or_eq_true, List.any_eq_true, beq_iff_eq] at hm
  rcases hm with ⟨r, hr, hid⟩ | ⟨r, hr, hid⟩
  · obtain ⟨u, hu, hf⟩ := h.indexFileAt? (h.sound.references r hr).unit
    exact hsame u hu ((hholds u hu).names_reference h.sound hr hf hid)
  · obtain ⟨u, hu, hf⟩ := h.indexFileAt? (h.sound.relations r hr).unit
    exact hsame u hu ((hholds u hu).names_relation h.sound hr hf hid)

/-- What is left when orphans are purged from a store of some units: what they mention or declare. -/
theorem Tracks.view?_purgeOrphans (h : Tracks canon us s)
    (hholds : ∀ u ∈ us, s.Holds canon u) {v : EntityView} : s.purgeOrphans.view? k = some v ↔
      s.view? k = some v ∧ InUse canon us k := by
  show (s.purgeOrphans.row? k).map s.view = _ ↔ _
  rw [Store.row?_purgeOrphans h.sound, Store.view?, Option.map_eq_some_iff, Option.map_eq_some_iff]
  have horphan : ∀ e, s.row? k = some e → (s.isOrphan e = false ↔ InUse canon us k) := by
    intro e hrow
    obtain ⟨he, hk⟩ := (Store.row?_eq_some h.sound).1 hrow
    have hview : s.view? k = some (s.view e) := by rw [Store.view?, hrow, Option.map_some]
    have hplain : e.dynamic = false := h.plain k _ hview
    have hnames : s.Names e.id k := ⟨e, he, rfl, hk⟩
    simp only [Store.isOrphan, hplain, Bool.not_false, Bool.and_true, Bool.and_eq_false_iff, Bool.not_eq_false']
    constructor
    · rintro (ho | hm)
      · right
        rcases howner : e.owner with _ | id
        · rw [howner] at ho
          cases ho
        · obtain ⟨u, hu, hf⟩ := h.among.indexFileAt? ((h.sound.entities e he).owner id howner).1
          obtain ⟨u', hu', -, hk'⟩ := h.owned k _ u.indexFile hview (by rw [Store.view, howner]; exact hf)
          exact ⟨u', hu', hk'⟩
      · exact .inl (h.among.mentioned_of_isMentioned hholds hnames hm)
    · rintro (⟨u, hu, hm⟩ | ⟨u, hu, hd⟩)
      · obtain ⟨id, hid, hm⟩ := (hholds u hu).isMentioned h.sound hm
        rw [(hnames.id_eq_iff h.sound hid).2 rfl]
        exact .inr hm
      · obtain ⟨v, hv, ho, -⟩ := h.owns u hu k hd
        rw [hview, Option.some.injEq] at hv
        rw [← hv] at ho
        obtain ⟨id, hid, -⟩ := Option.bind_eq_some_iff.1 ho
        rw [hid]
        exact .inl rfl
  constructor
  · rintro ⟨e, he, rfl⟩
    obtain ⟨hrow, ho⟩ := Option.filter_eq_some_iff.1 he
    exact ⟨⟨e, hrow, rfl⟩, (horphan e hrow).1 (by simpa using ho)⟩
  · rintro ⟨⟨e, hrow, rfl⟩, hlive⟩
    exact ⟨e, Option.filter_eq_some_iff.2 ⟨hrow, by simpa using (horphan e hrow).2 hlive⟩, rfl⟩

/-- What the units mention or declare is there. -/
theorem Tracks.view?_of_inUse (h : Tracks canon us s) (hholds : ∀ u ∈ us, s.Holds canon u) (hlive : InUse canon us k) :
    ∃ v, s.view? k = some v := by
  rcases hlive with ⟨u, hu, hm⟩ | ⟨u, hu, hd⟩
  · obtain ⟨id, hid, -⟩ := (hholds u hu).isMentioned h.sound hm
    obtain ⟨e, hrow, -⟩ := (Store.names_iff_row? h.sound).1 hid
    exact ⟨s.view e, by rw [Store.view?, hrow, Option.map_some]⟩
  · obtain ⟨v, hv, -⟩ := h.owns u hu k hd
    exact ⟨v, hv⟩

/-! ## The content of a mirror -/

/-- A list is put together from its parts with each key. -/
theorem perm_flatMap_filter {α κ : Type} [BEq κ] [LawfulBEq κ] {key : α → κ} : ∀ {keys : List κ} {l : List α},
    keys.Nodup → (∀ a ∈ l, key a ∈ keys) → l.Perm (keys.flatMap fun k => l.filter fun a => key a == k)
  | [], l, _, h => by
    have hl : l = [] := List.eq_nil_iff_forall_not_mem.2 fun a ha => List.not_mem_nil (h a ha)
    rw [hl, List.flatMap_nil]
  | k :: keys, l, hn, h => by
    obtain ⟨hk, hn⟩ := List.nodup_cons.1 hn
    have hrest : ∀ a ∈ l.filter fun a => !(key a == k), key a ∈ keys := by
      intro a ha
      obtain ⟨ha, hne⟩ := List.mem_filter.1 ha
      exact (List.mem_cons.1 (h a ha)).resolve_left (by simpa using hne)
    have ih := perm_flatMap_filter hn hrest
    -- the elements set aside for `k` have no other key
    have hparts : (keys.flatMap fun k' => (l.filter fun a => !(key a == k)).filter fun a => key a == k') =
        keys.flatMap fun k' => l.filter fun a => key a == k' := by
      apply List.flatMap_congr
      intro k' hk'
      rw [List.filter_filter]
      apply List.filter_congr
      intro a _
      by_cases ha : key a = k'
      · have hne : k' ≠ k := fun he => hk (he ▸ hk')
        simp [ha, hne]
      · simp [ha]
    rw [hparts] at ih
    rw [List.flatMap_cons]
    exact (List.filter_append_perm (fun a => key a == k) l).symm.trans (ih.append_left _)

/-- The rows of a table, unit by unit. -/
theorem Among.perm_ofUnit {α β : Type} (h : Among us s) {unit : α → Int} (read : α → β) {rows : List α}
    (hrows : ∀ r ∈ rows, s.HasUnit (unit r)) : (rows.map fun r => (s.indexFileAt? (unit r), read r)).Perm
      (us.flatMap fun u => (s.ofUnit unit read rows u.indexFile).map fun b => (some u.indexFile, b)) := by
  have hnodup : (us.map fun u => some u.indexFile).Nodup := by
    have := h.distinct.map (Option.some_injective String)
    rwa [List.map_map] at this
  have hcover : ∀ r ∈ rows, s.indexFileAt? (unit r) ∈ us.map fun u => some u.indexFile := by
    intro r hr
    obtain ⟨u, hu, hf⟩ := h.indexFileAt? (hrows r hr)
    exact List.mem_map.2 ⟨u, hu, hf.symm⟩
  refine ((perm_flatMap_filter hnodup hcover).map _).trans (List.Perm.of_eq ?_)
  rw [List.map_flatMap, List.flatMap_map]
  apply List.flatMap_congr
  intro u _
  rw [Store.ofUnit, List.map_map]
  apply List.map_congr_left
  intro r hr
  rw [beq_iff_eq.1 (List.mem_filter.1 hr).2]
  rfl

/-- Tables of two stores that agree on every unit agree as a whole. -/
theorem Among.perm_rows {α β : Type} (h : Among us s) (h' : Among us t) {unit : α → Int}
    {read read' : α → β} {rows rows' : List α} (hrows : ∀ r ∈ rows, s.HasUnit (unit r))
    (hrows' : ∀ r ∈ rows', t.HasUnit (unit r)) (hunits : ∀ u ∈ us,
      (s.ofUnit unit read rows u.indexFile).Perm (t.ofUnit unit read' rows' u.indexFile)) :
    (rows.map fun r => (s.indexFileAt? (unit r), read r)).Perm
      (rows'.map fun r => (t.indexFileAt? (unit r), read' r)) := by
  refine (h.perm_ofUnit read hrows).trans (.trans ?_ (h'.perm_ofUnit read' hrows').symm)
  exact List.Perm.flatMap_left us fun u hu => (hunits u hu).map _

theorem Mirrors.mem_entities (h : Mirrors canon us s) (hc : Coherent canon us) {r : EntityRecord} :
    r ∈ s.entities.map s.entityRecord ↔ InUse canon us r.key ∧
      ((∃ u ∈ us, ∃ r' ∈ u.entities, r'.key.stored canon = r.key ∧ r.kind = r'.kind ∧ r.flags = r'.flags) ∨
        (¬ Recorded canon us r.key ∧ r.kind = "" ∧ r.flags = {})) := by
  rw [← h.lives, List.mem_map]
  constructor
  · rintro ⟨e, he, rfl⟩
    have hrow : s.row? (s.keyOf e) = some e := (Store.row?_eq_some h.sound).2 ⟨he, rfl⟩
    have hview : s.view? (s.keyOf e) = some (s.view e) := by rw [Store.view?, hrow, Option.map_some]
    exact ⟨Option.isSome_iff_exists.2 ⟨_, hview⟩, h.described _ _ hview⟩
  · rintro ⟨hlive, hr⟩
    obtain ⟨v, hv⟩ := Option.isSome_iff_exists.1 hlive
    obtain ⟨e, hrow, rfl⟩ := Option.map_eq_some_iff.1 hv
    obtain ⟨he, hk⟩ := (Store.row?_eq_some h.sound).1 hrow
    refine ⟨e, he, ?_⟩
    have hsame : e.kind = r.kind ∧ e.flags = r.flags := by
      rcases h.described _ _ hv with ⟨u, hu, r₁, hr₁, hk₁, hkind, hflags⟩ | ⟨hno, hkind, hflags⟩
      · rcases hr with ⟨u', hu', r₂, hr₂, hk₂, hkind', hflags'⟩ | ⟨hno, -⟩
        · obtain ⟨h1, h2⟩ := hc.agree u hu u' hu' r₁ hr₁ r₂ hr₂ (hk₁.trans hk₂.symm)
          exact ⟨(hkind.trans h1).trans hkind'.symm, (hflags.trans h2).trans hflags'.symm⟩
        · exact absurd ⟨u, hu, UnitRecord.records_iff.2 ⟨r₁, hr₁, hk₁⟩⟩ hno
      · rcases hr with ⟨u', hu', r₂, hr₂, hk₂, -⟩ | ⟨-, hkind', hflags'⟩
        · exact absurd ⟨u', hu', UnitRecord.records_iff.2 ⟨r₂, hr₂, hk₂⟩⟩ hno
        · exact ⟨hkind.trans hkind'.symm, hflags.trans hflags'.symm⟩
    simp only [Store.keyOf, EntityRecord.key, EntityKey.mk.injEq] at hk
    unfold Store.entityRecord
    rw [hk.1, hk.2, hsame.1, hsame.2]

theorem nodup_entityRecord (hs : s.Sound) : (s.entities.map s.entityRecord).Nodup := by
  refine List.Nodup.map_on (fun e he e' he' h => ?_) (List.Nodup.of_map _ hs.entityIds)
  simp only [Store.entityRecord, EntityRecord.mk.injEq] at h
  exact Store.keyOf_inj hs he he' (by rw [Store.keyOf, Store.keyOf, h.1, h.2.2.1])

/-- Two stores that mirror the same units have the same content. -/
theorem Mirrors.content_eq (h : Mirrors canon us s) (h' : Mirrors canon us t) (hc : Coherent canon us) :
    s.content = t.content := by
  have hentities : (s.entities.map s.entityRecord).Perm (t.entities.map t.entityRecord) :=
    (List.perm_ext_iff_of_nodup (nodup_entityRecord h.sound) (nodup_entityRecord h'.sound)).2 fun r =>
      (h.mem_entities hc).trans (h'.mem_entities hc).symm
  have hreferences := h.among.perm_rows h'.among (fun r hr => (h.sound.references r hr).unit)
    (fun r hr => (h'.sound.references r hr).unit) fun u hu =>
      .of_eq ((h.holds u hu).references.trans (h'.holds u hu).references.symm)
  have hrelations := h.among.perm_rows h'.among (fun r hr => (h.sound.relations r hr).unit)
    (fun r hr => (h'.sound.relations r hr).unit) fun u hu =>
      .of_eq ((h.holds u hu).relations.trans (h'.holds u hu).relations.symm)
  have hdependencies := h.among.perm_rows h'.among (fun d hd => (h.sound.dependencies d hd).unit)
    (fun d hd => (h'.sound.dependencies d hd).unit) fun u hu =>
      (h.holds u hu).dependencies.trans (h'.holds u hu).dependencies.symm
  unfold Store.content
  rw [Multiset.coe_eq_coe.2 hentities, Multiset.coe_eq_coe.2 hreferences, Multiset.coe_eq_coe.2 hrelations,
    Multiset.coe_eq_coe.2 hdependencies]

end CrossIndex
