/-
How an entity stands that nobody declares. Writing a unit that does not declare it leaves its id, its owner
and its mark as an inserted one; pruning, purging and further insertions take no inserted entity away. Main
statement: an update that ingests no unit with the declaration of an entity leaves its row, if there is one
afterwards, standing as before or as a stub, and keeps it if it was inserted.
-/
import CrossIndex.Proofs.Update.Forced

namespace CrossIndex

namespace EntityRow

/-- Nobody owns the entity, and it was not inserted. -/
structure IsStub (e : EntityRow) : Prop where
  owner : e.owner = none
  dynamic : e.dynamic = false

/-- Two rows have the same id and owner, and both or neither were inserted. -/
structure SameStanding (e e' : EntityRow) : Prop where
  id : e'.id = e.id
  owner : e'.owner = e.owner
  dynamic : e'.dynamic = e.dynamic

theorem SameStanding.refl (e : EntityRow) : e.SameStanding e :=
  ⟨rfl, rfl, rfl⟩

theorem SameStanding.trans {a b c : EntityRow} (h : a.SameStanding b) (h' : b.SameStanding c) : a.SameStanding c :=
  ⟨h'.id.trans h.id, h'.owner.trans h.owner, h'.dynamic.trans h.dynamic⟩

theorem SameStanding.isStub {e e' : EntityRow} (h : e.SameStanding e') (he : e.IsStub) : e'.IsStub :=
  ⟨h.owner.trans he.owner, h.dynamic.trans he.dynamic⟩

end EntityRow

namespace Store

/-- The entity with a key is a stub. -/
def HasStub (s : Store) (k : EntityKey) : Prop :=
  ∃ e, s.row? k = some e ∧ e.IsStub

/-- The entity with an id and a key was inserted, and no unit has declared it since. -/
def HasInserted (s : Store) (id : Int) (k : EntityKey) : Prop :=
  ∃ e, s.row? k = some e ∧ e.id = id ∧ e.dynamic = true

/-- The entity with a key fares as if nobody declared it: a row of it is a stub or stands as before, and an
inserted entity stays. -/
structure Undisturbed (k : EntityKey) (s t : Store) : Prop where
  origin : ∀ e', t.row? k = some e' → e'.IsStub ∨ ∃ e, s.row? k = some e ∧ e.SameStanding e'
  inserted : ∀ e, s.row? k = some e → e.dynamic = true → ∃ e', t.row? k = some e' ∧ e.SameStanding e'

variable {canon : String → String} {s t : Store} {u : UnitRecord} {k : EntityKey}

namespace Undisturbed

theorem of_eq (h : t.row? k = s.row? k) : Undisturbed k s t where
  origin e' he' := .inr ⟨e', h ▸ he', .refl e'⟩
  inserted e he _ := ⟨e, h.trans he, .refl e⟩

theorem trans {a b c : Store} (h : Undisturbed k a b) (h' : Undisturbed k b c) : Undisturbed k a c where
  origin e' he' := by
    rcases h'.origin e' he' with hstub | ⟨e₁, he₁, hsame₁⟩
    · exact .inl hstub
    · rcases h.origin e₁ he₁ with hstub | ⟨e, he, hsame⟩
      · exact .inl (hsame₁.isStub hstub)
      · exact .inr ⟨e, he, hsame.trans hsame₁⟩
  inserted e he hd := by
    obtain ⟨e₁, he₁, hsame⟩ := h.inserted e he hd
    obtain ⟨e', he', hsame₁⟩ := h'.inserted e₁ he₁ (hsame.dynamic.trans hd)
    exact ⟨e', he', hsame.trans hsame₁⟩

/-- A deletion that spares inserted entities. -/
theorem of_filter {keep : EntityRow → Bool} (h : t.row? k = (s.row? k).filter keep)
    (hkeep : ∀ e, s.row? k = some e → e.dynamic = true → keep e = true) : Undisturbed k s t where
  origin e' he' := by
    rw [h, Option.filter_eq_some_iff] at he'
    exact .inr ⟨e', he'.1, .refl e'⟩
  inserted e he hd := by
    refine ⟨e, ?_, .refl e⟩
    rw [h, Option.filter_eq_some_iff]
    exact ⟨he, hkeep e he hd⟩

theorem hasInserted (h : Undisturbed k s t) {id : Int} (hs : s.HasInserted id k) : t.HasInserted id k := by
  obtain ⟨e, he, rfl, hd⟩ := hs
  obtain ⟨e', he', hsame⟩ := h.inserted e he hd
  exact ⟨e', he', hsame.id, hsame.dynamic.trans hd⟩

theorem unowned (h : Undisturbed k s t) (hs : ∀ e, s.row? k = some e → e.owner = none) :
    ∀ e, t.row? k = some e → e.owner = none := by
  intro e' he'
  rcases h.origin e' he' with hstub | ⟨e, he, hsame⟩
  · exact hstub.owner
  · exact hsame.owner.trans (hs e he)

theorem isStub (h : Undisturbed k s t) (hs : ∀ e, s.row? k = some e → e.IsStub) :
    ∀ e, t.row? k = some e → e.IsStub := by
  intro e' he'
  rcases h.origin e' he' with hstub | ⟨e, he, hsame⟩
  · exact hstub
  · exact hsame.isStub (hs e he)

end Undisturbed

/-! ## The steps of an update -/

theorem Sound.owner_of_dynamic (hs : s.Sound) {e : EntityRow} (he : s.row? k = some e) (hd : e.dynamic = true) :
    e.owner = none := by
  rcases ho : e.owner with _ | unit
  · rfl
  · have hno := ((hs.entities e ((row?_eq_some hs).1 he).1).owner unit ho).2.2
    rw [hd] at hno
    cases hno

/-- Records of an entity that is declared elsewhere leave its standing. -/
theorem putAll_sameStanding {files : List String} {unit : Int} {rs : List EntityRecord}
    (h : ∀ r ∈ rs, r.key.stored canon = k → k.within files = false) (e : EntityRow) :
    e.SameStanding (Writer.putAll canon files unit rs k e) := by
  induction rs generalizing e with
  | nil => exact .refl e
  | cons r rs ih =>
    have hrest := ih fun r' hr' => h r' (List.mem_cons_of_mem _ hr')
    refine .trans ?_ (hrest _)
    dsimp only
    split
    · rename_i hkey
      rw [h r List.mem_cons_self hkey]
      unfold EntityRecord.put
      split
      · exact ⟨rfl, rfl, by simp [EntityRecord.describe]⟩
      · exact .refl e
    · exact .refl e

/-- A row in the draft of a unit stands as the row of before, or as a stub, if the unit does not declare it. -/
theorem drafted_sameStanding {w : Writer} (d : Writer.Drafted canon s u w) (hk : ¬ u.Declares canon k) {e' : EntityRow}
    (he' : w.store.row? k = some e') :
    ∃ decl id, ((s.row? k).getD (stub k.name decl id)).SameStanding e' := by
  by_cases ht : u.Touches canon k
  · obtain ⟨decl, id, hrow⟩ := d.row k ht
    obtain rfl := Option.some.inj (hrow.symm.trans he')
    exact ⟨decl, id, putAll_sameStanding (fun r hr hkey => UnitRecord.within_of_not_declares hk hr hkey) _⟩
  · rw [d.other k ht] at he'
    exact ⟨none, 0, by rw [he']; exact .refl e'⟩

/-- Taking in a unit that does not declare an entity. -/
theorem drafted_undisturbed {w : Writer} (hs : s.Sound) (d : Writer.Drafted canon s u w) (hk : ¬ u.Declares canon k) :
    Undisturbed k s w.store where
  origin e' he' := by
    obtain ⟨decl, id, hsame⟩ := drafted_sameStanding d hk he'
    rcases hr : s.row? k with _ | e
    · rw [hr] at hsame
      exact .inl (hsame.isStub ⟨rfl, rfl⟩)
    · rw [hr] at hsame
      exact .inr ⟨e, rfl, hsame⟩
  inserted e he _ := by
    obtain ⟨e', he', -⟩ := (names_iff_row? d.sound.store).1
      (d.grows.names hs d.sound.store ((names_iff_row? hs).2 ⟨e, he, rfl⟩))
    obtain ⟨decl, id, hsame⟩ := drafted_sameStanding d hk he'
    rw [he] at hsame
    exact ⟨e', he', hsame⟩

/-- Writing a unit that does not declare an entity. -/
theorem replaceUnit_undisturbed (hs : s.Sound) (hu : u.check = .ok ()) (hk : ¬ u.Declares canon k) :
    Undisturbed k s (s.replaceUnit canon u) := by
  have d : Writer.Drafted canon s (u.respelled canon) (s.drafted canon u) := Writer.drafted_spec_respelled hs hu
  have hk' : ¬ (u.respelled canon).Declares canon k := hk
  have hw := d.sound.store
  refine (drafted_undisturbed hs d hk').trans (.of_filter (row?_deleteEntities hw _ k) fun e he hd => ?_)
  rw [Bool.not_eq_true', ← Bool.not_eq_true, drafted_gone hs d he]
  -- what is dropped had an owner, and an inserted entity has none
  rintro ⟨⟨v, hv, howner⟩, -⟩
  obtain ⟨e₀, he₀, rfl⟩ := Option.map_eq_some_iff.1 hv
  obtain ⟨decl, id, hsame⟩ := drafted_sameStanding d hk' he
  rw [he₀] at hsame
  have hnone : e₀.owner = none := hsame.owner.symm.trans (hw.owner_of_dynamic he hd)
  rw [show (s.view e₀).owner = e₀.owner.bind s.indexFileAt? from rfl, hnone] at howner
  cases howner

theorem deleteUnit_undisturbed (hs : s.Sound) (unit : Int) (k : EntityKey) : Undisturbed k s (s.deleteUnit unit) := by
  have hrow : (s.deleteUnit unit).row? k = (s.row? k).filter fun e => !(s.ownedBy unit).contains e.id :=
    row?_deleteEntities hs _ k
  refine .of_filter hrow fun e he hd => ?_
  rw [Bool.not_eq_true', ← Bool.not_eq_true, List.contains_iff_mem,
    id_mem_ownedBy hs ((row?_eq_some hs).1 he).1, hs.owner_of_dynamic he hd]
  simp

theorem closed_undisturbed (hs : s.Sound) (k : EntityKey) : Undisturbed k s s.closed :=
  .of_filter (row?_closed hs k) fun e _ hd => by simp [isOrphan, hd]

/-! ## An update -/

/-- The units that an update writes for good: they are stale, they load and have no defect, and no unit
before them fails with the storage; on a copy, no unit fails so at all. -/
def Ingests (config : Config) (src : Source) (force : Bool) (s : Store) (u : UnitRecord) : Prop :=
  ∃ units before rest, src.units = .ok units ∧ (Plan.make config force s units).offered = before ++ rest ∧
    src.Serves before ∧ u ∈ src.usable before ∧
    (rest = [] ∨ (Plan.make config force s units).staleCount < config.stagingThreshold)

variable {config : Config} {src : Source} {force : Bool}

theorem Ingests.loaded (h : s.Ingests config src force u) :
    ∃ units v, src.units = .ok units ∧ v ∈ units ∧ src.load v = .ok u := by
  obtain ⟨units, before, rest, hunits, hoff, -, hu, -⟩ := h
  obtain ⟨v, hv, hfetch⟩ := Source.mem_usable.1 hu
  have hmem : (v, true) ∈ (Plan.make config force s units).offered := by
    rw [hoff]
    exact List.mem_append_left _ hv
  obtain ⟨v', hv', heq⟩ := List.mem_map.1 hmem
  exact ⟨units, v, hunits, (Prod.mk.inj heq).1 ▸ hv', (Source.fetch_eq_ok hfetch).1⟩

/-- Writing some units that do not declare an entity. -/
theorem replaceAll_undisturbed : ∀ {us : List UnitRecord} {s : Store}, s.Sound → (∀ u ∈ us, u.check = .ok ()) →
    (∀ u ∈ us, ¬ u.Declares canon k) →
    (us.foldl (replaceUnit canon) s).Sound ∧ Undisturbed k s (us.foldl (replaceUnit canon) s)
  | [], _, hs, _, _ => ⟨hs, .of_eq rfl⟩
  | u :: us, s, hs, hcheck, hforeign => by
    have hu := hcheck u List.mem_cons_self
    have hstep := replaceUnit_undisturbed hs hu (hforeign u List.mem_cons_self)
    obtain ⟨hsound, hrest⟩ := replaceAll_undisturbed (s := s.replaceUnit canon u) (replaceUnit_sound hs hu)
      (fun u' hu' => hcheck u' (List.mem_cons_of_mem _ hu')) fun u' hu' => hforeign u' (List.mem_cons_of_mem _ hu')
    exact ⟨hsound, hstep.trans hrest⟩

/-- The end of a pass after its units have been written. -/
theorem finish_undisturbed (files : List String) {p : Pass} (hp : p.store.Sound) (k : EntityKey) :
    Undisturbed k p.store (files.foldl Pass.prune p).finish.store := by
  obtain ⟨hsound, hpruned⟩ : (files.foldl Pass.prune p).store.Sound ∧ Undisturbed k p.store _ :=
    Pass.foldl_prune_steady (P := fun t => t.Sound ∧ Undisturbed k p.store t)
      (fun ht unit => ⟨deleteUnit_sound ht.1 unit, ht.2.trans (deleteUnit_undisturbed ht.1 unit k)⟩) files
      ⟨hp, .of_eq rfl⟩
  unfold Pass.finish
  split
  · exact hpruned.trans (closed_undisturbed hsound k)
  · exact hpruned

/-- An update that ingests no unit with the declaration of an entity. -/
theorem update_undisturbed (hs : s.Sound) (hforeign : ∀ u, s.Ingests config src force u → ¬ u.Declares canon k) :
    Undisturbed k s (s.update canon config src force none).store := by
  cases hunits : src.units with
  | error f => exact .of_eq (by rw [update_of_units_error rfl hunits])
  | ok units =>
    rw [update_store_of_units hunits]
    -- whichever part of the offered units is written for good, none of them declares the entity
    have hwritten : ∀ before rest, (Plan.make config force s units).offered = before ++ rest → src.Serves before →
        (rest = [] ∨ (Plan.make config force s units).staleCount < config.stagingThreshold) →
        ((src.usable before).foldl (replaceUnit canon) s).Sound ∧
          Undisturbed k s ((src.usable before).foldl (replaceUnit canon) s) := by
      intro before rest hoff hserves hrest
      exact replaceAll_undisturbed hs Source.usable_check fun u hu =>
        hforeign u ⟨units, before, rest, hunits, hoff, hserves, hu, hrest⟩
    rcases Pass.run_cases canon src (Plan.make config force s units) s with ⟨hserves, hrun⟩ |
      ⟨before, v, rest, f, hoff, hserves, -, -, hrun⟩
    · rw [updateSeeded_of_run hrun]
      obtain ⟨hsound, hwritten⟩ := hwritten _ [] (List.append_nil _).symm hserves (.inl rfl)
      exact hwritten.trans (finish_undisturbed _ (p := Pass.after canon src _ { store := s } _) hsound k)
    · rw [updateSeeded_of_failure hrun]
      dsimp only
      split
      · exact .of_eq rfl
      · rename_i hplace
        exact (hwritten before _ hoff hserves (.inr (Nat.not_le.1 hplace))).2

/-! ## An insertion -/

/-- An insertion settles the key of the record, which leaves a row that is there as it is. -/
theorem insertEntity_settles (hs : s.Sound) {r : EntityRecord} {e : Entity} (h : s.insertEntity canon r = .ok (e, t)) :
    r.name ≠ "" ∧ ∃ s₁ decl t₁, s₁.Sound ∧ s.Grows s₁ ∧ (∃ fs, s₁ = { s with files := fs }) ∧ s₁.Placed decl ∧
      decl.bind s₁.location? = r.decl.map (Location.stored canon) ∧
      s₁.settle r.name decl (fun e => e) (r.row decl none true) = (e.id, t₁) ∧ t = t₁.bump := by
  unfold insertEntity at h
  split at h
  · cases h
  · rename_i hr
    obtain ⟨hname, hvalid⟩ : r.name ≠ "" ∧ ∀ l, r.decl = some l → 1 ≤ l.line ∧ 1 ≤ l.column := EntityKey.check_eq_ok hr
    refine ⟨hname, ?_⟩
    rcases hd : r.decl with _ | l <;> simp only [hd, Except.ok.injEq, Prod.mk.injEq] at h
    · obtain ⟨rfl, rfl⟩ := h
      exact ⟨s, none, _, hs, .refl s, ⟨s.files, rfl⟩, fun p hp => (by cases hp), rfl, settle_keep .., rfl⟩
    · obtain ⟨rfl, rfl⟩ := h
      obtain ⟨hs₁, hg, hm⟩ := internFile_spec hs (canon l.file)
      refine ⟨_, some ⟨(s.internFile (canon l.file)).1, l.line, l.column⟩, _, hs₁, hg, ⟨_, internFile_eq s _⟩,
        fun p hp => ?_, ?_, settle_keep .., rfl⟩
      · cases hp
        exact ⟨⟨_, hm, rfl⟩, hvalid l hd⟩
      · simp only [Option.bind_some, Option.map_some, location?]
        rw [(file?_eq_some hs₁.toDistinct).2 ⟨hm, rfl⟩]
        rfl

/-- After an insertion the key leads to the row that was there, or else to a new one that is marked as
inserted, under the id that is returned; every other key leads where it led before, and the units stay. -/
theorem insertEntity_spec (hs : s.Sound) {r : EntityRecord} {e : Entity} (h : s.insertEntity canon r = .ok (e, t)) :
    (∃ row, t.row? (r.key.stored canon) = some row ∧ row.id = e.id ∧ (s.row? (r.key.stored canon) = some row ∨
      s.row? (r.key.stored canon) = none ∧ row.owner = none ∧ row.dynamic = true)) ∧
      (∀ k, k ≠ r.key.stored canon → t.row? k = s.row? k) ∧ t.units = s.units := by
  obtain ⟨hname, s₁, decl, t₁, hs₁, hg, ⟨fs, hfs⟩, hd, hkey, hsettle, rfl⟩ := insertEntity_settles hs h
  have hrow : ∀ id, s₁.Fits id r.name decl (r.row decl none true id) := fun id =>
    ⟨rfl, rfl, rfl, hname, hd, fun _ h => by cases h⟩
  obtain ⟨ht, -, ⟨es, hes⟩, hnames, hrows⟩ :=
    settle_spec hs₁ hd (fun e he hn hp => ⟨rfl, hn, hp, hs₁.entities e he⟩) hrow hsettle
  have hstored : (⟨r.name, decl.bind s₁.location?⟩ : EntityKey) = r.key.stored canon := by
    rw [hkey]
    rfl
  rw [hstored] at hnames hrows
  have hold : ∀ k, s₁.row? k = s.row? k := hg.row? hs hs₁ (by rw [hfs])
  refine ⟨?_, fun k hk => ?_, ?_⟩
  · obtain ⟨row, hrow, hid⟩ := (names_iff_row? ht).1 hnames
    refine ⟨row, hrow, hid, ?_⟩
    rw [hrows, if_pos rfl, hold, Option.some.injEq] at hrow
    rcases hr : s.row? (r.key.stored canon) with _ | row' <;> rw [hr] at hrow
    · obtain rfl : r.row decl none true e.id = row := hrow
      exact .inr ⟨rfl, rfl, rfl⟩
    · exact .inl (congrArg some hrow)
  · show t₁.row? k = s.row? k
    rw [hrows, if_neg hk, hold]
  · show t₁.units = s.units
    rw [hes, hfs]

/-- Another insertion takes nothing away. -/
theorem insertEntity_keeps (hs : s.Sound) {r : EntityRecord} {e : Entity} (h : s.insertEntity canon r = .ok (e, t))
    {row : EntityRow} (hrow : s.row? k = some row) : t.row? k = some row := by
  obtain ⟨⟨row', hrow', -, hcase⟩, hother, -⟩ := insertEntity_spec hs h
  by_cases hk : k = r.key.stored canon
  · subst hk
    rcases hcase with hsame | ⟨hnone, -⟩
    · rw [hrow', ← hsame, hrow]
    · rw [hrow] at hnone
      cases hnone
  · rw [hother k hk, hrow]

end Store

end CrossIndex
