/-
The whole write of a unit. A unit without defects has valid keys and locations only; taking them in
one after the other keeps the writer sound, and each reference, relation and dependency adds rows
that read back as it. What the unit touches is said by key (`Touches`): which keys are cached
afterwards and where each key leads. Main statements: the store after a write is sound, and what
`drafted` leaves in the tables.
-/
import CrossIndex.Proofs.Store.Content
import CrossIndex.Proofs.Store.Writing
import Mathlib.Data.List.Dedup

namespace CrossIndex

/-- The keys in a reference: that of its entity, then that of its scope. -/
def ReferenceRecord.keys (r : ReferenceRecord) : List EntityKey :=
  r.entity :: r.scope.toList

/-- The keys in a relation. -/
def RelationRecord.keys (r : RelationRecord) : List EntityKey :=
  [r.source, r.target]

/-- The keys that a unit mentions in references, scopes and relations. -/
def UnitRecord.mentioned (u : UnitRecord) : List EntityKey :=
  u.references.flatMap ReferenceRecord.keys ++ u.relations.flatMap RelationRecord.keys

/-- The keys of the entities that a unit records. -/
def UnitRecord.recorded (u : UnitRecord) : List EntityKey :=
  u.entities.map EntityRecord.key

/-- The keys that a unit mentions are stored as the cache of a writer finds them: as the latest entity
recorded under the same path, and alike among themselves. -/
structure UnitRecord.Spelled (canon : String → String) (u : UnitRecord) : Prop where
  latest : ∀ key ∈ u.mentioned, ∀ key', u.recorded.reverse.find? (fun k => k.same key) = some key' →
    key'.stored canon = key.stored canon
  alike : EntityKey.Alike canon u.mentioned

theorem UnitRecord.Spelled.of_alike {canon : String → String} {u : UnitRecord}
    (h : EntityKey.Alike canon (u.recorded ++ u.mentioned)) : u.Spelled canon := by
  refine ⟨fun key hk key' hf => ?_, h.mono fun _ hk => List.mem_append_right _ hk⟩
  have hrecorded : key' ∈ u.recorded := List.mem_reverse.1 (List.mem_of_find?_eq_some hf)
  have hsame := List.find?_some hf
  exact h key' (List.mem_append_left _ hrecorded) key (List.mem_append_right _ hk) hsame

/-! ## Units without defects -/

theorem bind_eq_ok {ε α β : Type} {x : Except ε α} {f : α → Except ε β} {b : β} (h : x >>= f = .ok b) :
    ∃ a, x = .ok a ∧ f a = .ok b := by
  cases x with
  | error e => cases h
  | ok a => exact ⟨a, rfl, h⟩

theorem forM_eq_ok {ε α : Type} {f : α → Except ε Unit} : ∀ {l : List α}, l.forM f = .ok () → ∀ a ∈ l, f a = .ok ()
  | [], _, _, ha => by cases ha
  | x :: l, h, a, ha => by
    obtain ⟨⟨⟩, hx, hl⟩ := bind_eq_ok h
    rcases List.mem_cons.1 ha with rfl | ha
    · exact hx
    · exact forM_eq_ok hl a ha

theorem ReferenceRecord.check_eq_ok {r : ReferenceRecord} (h : r.check = .ok ()) :
    (∀ key ∈ r.keys, key.check = .ok ()) ∧ 1 ≤ r.location.line ∧ 1 ≤ r.location.column := by
  obtain ⟨⟨⟩, hentity, h⟩ := bind_eq_ok h
  have hscope : (∀ key, r.scope = some key → key.check = .ok ()) ∧ r.location.isValid = true := by
    rcases hs : r.scope with _ | key <;> rw [hs] at h
    · refine ⟨fun _ hk => (by cases hk), Bool.eq_true_of_not_eq_false fun hv => ?_⟩
      rw [hv] at h
      cases h
    · obtain ⟨⟨⟩, hkey, h⟩ := bind_eq_ok h
      refine ⟨fun _ hk => (by cases hk; exact hkey), Bool.eq_true_of_not_eq_false fun hv => ?_⟩
      rw [hv] at h
      cases h
  refine ⟨fun key hk => ?_, ?_⟩
  · rcases List.mem_cons.1 hk with rfl | hk
    · exact hentity
    · exact hscope.1 key (by simpa using hk)
  · have hv := hscope.2
    simp only [Location.isValid, Bool.and_eq_true, decide_eq_true_eq] at hv
    exact hv.1

theorem RelationRecord.check_eq_ok {r : RelationRecord} (h : r.check = .ok ()) :
    ∀ key ∈ r.keys, key.check = .ok () := by
  obtain ⟨⟨⟩, hsource, h⟩ := bind_eq_ok h
  obtain ⟨⟨⟩, htarget, -⟩ := bind_eq_ok h
  intro key hk
  simp only [keys, List.mem_cons, List.not_mem_nil, or_false] at hk
  rcases hk with rfl | rfl
  · exact hsource
  · exact htarget

/-- Everything in a unit without defects is without defects. -/
theorem UnitRecord.check_eq_ok {u : UnitRecord} (h : u.check = .ok ()) :
    (∀ r ∈ u.entities, r.key.check = .ok ()) ∧ (∀ r ∈ u.references, r.check = .ok ()) ∧
      ∀ r ∈ u.relations, r.check = .ok () := by
  have h' : ((u.entities.forM fun r => r.key.check) >>= fun _ => u.references.forM ReferenceRecord.check >>= fun _ =>
      u.relations.forM RelationRecord.check) = .ok () := by
    unfold check at h
    split at h
    · cases h
    · exact h
  obtain ⟨⟨⟩, he, h'⟩ := bind_eq_ok h'
  obtain ⟨⟨⟩, hr, hl⟩ := bind_eq_ok h'
  exact ⟨forM_eq_ok he, forM_eq_ok hr, forM_eq_ok hl⟩

namespace Writer

variable {canon : String → String} {files : List String} {w w' : Writer}

/-! ## What is touched -/

/-- How the entities stand after some keys have been taken in: these are cached, and each leads to the
row it led to before, or else to a stub, after a change; other keys lead where they led before. -/
structure Touches (canon : String → String) (w w' : Writer) (keys : List EntityKey)
    (change : EntityKey → EntityRow → EntityRow) : Prop where
  known : ∀ key ∈ keys, (w'.known? key).isSome
  fresh : ∃ new, w'.keys = new ++ w.keys ∧ ∀ entry ∈ new, entry.1 ∈ keys
  listed : ∀ k ∈ keys.map (EntityKey.stored canon), ∃ entry ∈ w'.keys, entry.1.stored canon = k
  row : ∀ k ∈ keys.map (EntityKey.stored canon), ∃ decl id,
    w'.store.row? k = some (change k ((w.store.row? k).getD (Store.stub k.name decl id)))
  other : ∀ k, k ∉ keys.map (EntityKey.stored canon) → w'.store.row? k = w.store.row? k
  only : ∀ k, k ∉ keys.map (EntityKey.stored canon) → ∀ e, change k e = e

/-- Mentioned entities stay as they are. -/
abbrev Mentions (canon : String → String) (w w' : Writer) (keys : List EntityKey) : Prop :=
  Touches canon w w' keys fun _ e => e

theorem Grows.known? (hg : w.Grows canon w') {key : EntityKey} (h : (w.known? key).isSome) :
    (w'.known? key).isSome := by
  unfold Writer.known? at h ⊢
  rw [Option.isSome_map, List.find?_isSome] at h ⊢
  obtain ⟨entry, hm, hs⟩ := h
  exact ⟨entry, hg.keys entry hm, hs⟩

theorem Touches.refl (canon : String → String) (w : Writer) : Mentions canon w w [] :=
  ⟨fun _ h => (by cases h), ⟨[], rfl, fun _ h => (by cases h)⟩, fun _ h => (by cases h), fun _ h => (by cases h),
    fun _ _ => rfl, fun _ _ _ => rfl⟩

theorem Touches.trans {a b c : Writer} {keys keys' : List EntityKey}
    {change change' : EntityKey → EntityRow → EntityRow}
    (h1 : Touches canon a b keys change) (h2 : Touches canon b c keys' change') (hg : b.Grows canon c) :
    Touches canon a c (keys ++ keys') fun k e => change' k (change k e) := by
  refine ⟨fun key hk => ?_, ?_, fun k hk => ?_, fun k hk => ?_, fun k hk => ?_, fun k hk e => ?_⟩
  · rcases List.mem_append.1 hk with hk | hk
    · exact hg.known? (h1.known key hk)
    · exact h2.known key hk
  · obtain ⟨new, hnew, hin⟩ := h1.fresh
    obtain ⟨new', hnew', hin'⟩ := h2.fresh
    refine ⟨new' ++ new, by rw [hnew', hnew, List.append_assoc], fun entry he => ?_⟩
    rcases List.mem_append.1 he with he | he
    · exact List.mem_append_right _ (hin' entry he)
    · exact List.mem_append_left _ (hin entry he)
  · rw [List.map_append, List.mem_append] at hk
    rcases hk with hk | hk
    · obtain ⟨entry, he, hkey⟩ := h1.listed k hk
      exact ⟨entry, hg.keys entry he, hkey⟩
    · exact h2.listed k hk
  · rw [List.map_append, List.mem_append] at hk
    by_cases h1k : k ∈ keys.map (EntityKey.stored canon)
    · obtain ⟨decl, id, hrow⟩ := h1.row k h1k
      refine ⟨decl, id, ?_⟩
      by_cases h2k : k ∈ keys'.map (EntityKey.stored canon)
      · obtain ⟨decl', id', hrow'⟩ := h2.row k h2k
        rw [hrow', hrow, Option.getD_some]
      · rw [h2.other k h2k, hrow, h2.only k h2k]
    · obtain ⟨decl, id, hrow⟩ := h2.row k (hk.resolve_left h1k)
      exact ⟨decl, id, by rw [hrow, h1.other k h1k, h1.only k h1k]⟩
  · rw [List.map_append, List.mem_append] at hk
    rw [h2.other k fun h => hk (.inr h), h1.other k fun h => hk (.inl h)]
  · rw [List.map_append, List.mem_append] at hk
    rw [h1.only k fun h => hk (.inl h), h2.only k fun h => hk (.inr h)]

theorem Mentions.trans {a b c : Writer} {keys keys' : List EntityKey} (h1 : Mentions canon a b keys)
    (h2 : Mentions canon b c keys') (hg : b.Grows canon c) : Mentions canon a c (keys ++ keys') :=
  Touches.trans h1 h2 hg

/-- The keys that come next are cached, if at all, under spellings that are stored as they are, and are
stored alike among themselves. -/
structure Ready (canon : String → String) (w : Writer) (keys : List EntityKey) : Prop where
  spells : ∀ key ∈ keys, w.Spells canon key
  alike : EntityKey.Alike canon keys

theorem Ready.left {keys keys' : List EntityKey} (h : w.Ready canon (keys ++ keys')) : w.Ready canon keys :=
  ⟨fun key hk => h.spells key (List.mem_append_left _ hk), h.alike.mono fun _ hk => List.mem_append_left _ hk⟩

/-- When the first of some keys have been taken in, the writer is ready for the others. -/
theorem Touches.ready {keys keys' : List EntityKey} {change : EntityKey → EntityRow → EntityRow}
    (h : Touches canon w w' keys change) (hr : w.Ready canon (keys ++ keys')) : w'.Ready canon keys' := by
  refine ⟨fun key hk key' hf => ?_, hr.alike.mono fun _ hk => List.mem_append_right _ hk⟩
  have hkey : key ∈ keys ++ keys' := List.mem_append_right _ hk
  obtain ⟨new, hnew, hin⟩ := h.fresh
  rw [cached, hnew, List.map_append, List.find?_append, Option.or_eq_some_iff] at hf
  -- a key just taken in is stored alike, an older one is found as before
  rcases hf with hf | ⟨-, hf⟩
  · obtain ⟨entry, he, rfl⟩ := List.mem_map.1 (List.mem_of_find?_eq_some hf)
    have hsame := List.find?_some hf
    exact hr.alike _ (List.mem_append_left _ (hin entry he)) key hkey hsame
  · exact hr.spells key hkey key' hf

theorem Settles.touches {key : EntityKey} {id : Int} {change : EntityKey → EntityRow → EntityRow}
    (h : w.Settles w' (key.stored canon) id (change (key.stored canon))) (hknown : (w'.known? key).isSome)
    (hfresh : ∃ new, w'.keys = new ++ w.keys ∧ ∀ entry ∈ new, entry.1 = key)
    (hlisted : ∃ entry ∈ w'.keys, entry.1.stored canon = key.stored canon)
    (honly : ∀ k, k ≠ key.stored canon → ∀ e, change k e = e) : Touches canon w w' [key] change := by
  refine ⟨fun key' hk => ?_, ?_, fun k hk => ?_, fun k hk => ?_, fun k hk => ?_, fun k hk => ?_⟩
  · rw [List.mem_singleton.1 hk]
    exact hknown
  · obtain ⟨new, hnew, hin⟩ := hfresh
    exact ⟨new, hnew, fun entry he => List.mem_singleton.2 (hin entry he)⟩
  · obtain rfl := List.mem_singleton.1 hk
    exact hlisted
  · obtain rfl := List.mem_singleton.1 hk
    obtain ⟨decl, hrow⟩ := h.row
    exact ⟨decl, id, hrow⟩
  · exact h.other k fun h => hk (List.mem_singleton.2 h)
  · exact honly k fun h => hk (List.mem_singleton.2 h)

/-! ## Files -/

/-- Finding the id of a path touches no entity and adds no row. -/
theorem fileId_quiet (hw : w.Sound canon files) {path : String} {id : Int} (h : w.fileId canon path = (id, w')) :
    w.Adds w' [] [] [] ∧ Mentions canon w w' [] := by
  obtain ⟨hw', hg, -, fs, ps, rfl⟩ := fileId_spec hw h
  refine ⟨⟨rfl, rfl, (List.append_nil _).symm, (List.append_nil _).symm, (List.append_nil _).symm⟩,
    fun _ h => (by cases h), ⟨[], rfl, fun _ h => (by cases h)⟩, fun _ h => (by cases h), fun _ h => (by cases h),
    fun k _ => ?_, fun _ _ _ => rfl⟩
  exact hg.store.row? hw.store hw'.store rfl k

/-- Taking in a source file while nothing is cached yet. -/
theorem addSource_spec (hw : w.Sound canon files) (hkeys : w.keys = []) (hkept : w.kept = []) (path : String) :
    (w.addSource canon path).Sound canon (files ++ [canon path]) ∧ w.Grows canon (w.addSource canon path) ∧
      (w.addSource canon path).keys = [] ∧ (w.addSource canon path).kept = [] ∧
      (∃ fs, (w.addSource canon path).store = { w.store with files := fs }) := by
  unfold addSource
  rcases hf : w.fileId canon path with ⟨id, w₁⟩
  obtain ⟨hw₁, hg, hmem, fs, ps, rfl⟩ := fileId_spec hw hf
  have hfile := hw₁.paths _ _ hmem
  refine ⟨⟨hw₁.store, hw₁.unit, fun i hi => ?_, fun p hp => ?_, IdSet.pairwise_insert hw₁.ascending, hw₁.paths,
    hw₁.keys, fun i hi => ?_, fun key i hi => ?_⟩,
    ⟨hg.store, hg.files, rfl, rfl, fun _ h => h, hg.paths, fun _ h => h⟩, hkeys, hkept, fs, rfl⟩
  · rcases IdSet.mem_insert.1 hi with rfl | hi
    · exact ⟨canon path, by simp, hfile⟩
    · obtain ⟨p, hp, hm⟩ := hw₁.sources i hi
      exact ⟨p, List.mem_append_left _ hp, hm⟩
  · rcases List.mem_append.1 hp with hp | hp
    · obtain ⟨i, hi, hm⟩ := hw₁.taken p hp
      exact ⟨i, IdSet.mem_insert.2 (.inr hi), hm⟩
    · obtain rfl := List.mem_singleton.1 hp
      exact ⟨id, IdSet.mem_insert.2 (.inl rfl), hfile⟩
  · rw [show w.kept = [] from hkept] at hi
    cases hi
  · rw [show w.keys = [] from hkeys] at hi
    cases hi

/-! ## Rows that name entities -/

theorem entityId_mentions (hw : w.Sound canon files) {key : EntityKey} (hk : key.check = .ok ()) {id : Int}
    (h : w.entityId canon key = (id, w')) (hc : w.Ready canon [key]) :
    Mentions canon w w' [key] ∧ w'.store.Names id (key.stored canon) := by
  obtain ⟨-, -, -, -, hknown, hfresh, hsettles⟩ := entityId_spec hw hk h
  obtain ⟨hlisted, hs⟩ := hsettles (hc.spells key List.mem_cons_self)
  exact ⟨hs.touches (by rw [hknown]; rfl) hfresh hlisted fun _ _ _ => rfl, hs.names⟩

theorem scopeId_spec (hw : w.Sound canon files) {scope : Option EntityKey}
    (hk : ∀ key ∈ scope.toList, key.check = .ok ())
    {id : Option Int} (h : w.scopeId canon scope = (id, w')) :
    w'.Sound canon files ∧ w.Grows canon w' ∧ w.Adds w' [] [] [] ∧ (∀ i, id = some i → w'.store.HasEntity i) ∧
      (w.Ready canon scope.toList → Mentions canon w w' scope.toList ∧
        id.bind w'.store.keyAt? = scope.map (EntityKey.stored canon)) := by
  rcases scope with _ | key
  · obtain ⟨rfl, rfl⟩ := Prod.mk.inj h
    exact ⟨hw, .refl canon w, .refl w, fun _ h => (by cases h), fun _ => ⟨.refl canon w, rfl⟩⟩
  · unfold scopeId at h
    rcases he : w.entityId canon key with ⟨i, w₁⟩
    simp only [he] at h
    obtain ⟨rfl, rfl⟩ := Prod.mk.inj h
    have hkey := hk key (by simp)
    obtain ⟨hw₁, hg, ha, hi, -⟩ := entityId_spec hw hkey he
    refine ⟨hw₁, hg, ha, fun _ h => (by cases h; exact hi), fun hc => ?_⟩
    obtain ⟨hm, hn⟩ := entityId_mentions hw hkey he hc
    exact ⟨hm, (Store.keyAt?_eq_some hw₁.store).2 hn⟩

/-- New rows in the tables without keys keep the writer sound if their links hold. -/
theorem Sound.append (hw : w.Sound canon files) (rs : List ReferenceRow) (ls : List RelationRow)
    (ds : List DependencyRow) (hr : ∀ r ∈ rs, r.Linked w.store) (hl : ∀ r ∈ ls, r.Linked w.store)
    (hd : ∀ d ∈ ds, d.Linked w.store) {store : Store} (hstore : store = { w.store with
      references := w.store.references ++ rs
      relations := w.store.relations ++ ls
      dependencies := w.store.dependencies ++ ds }) :
    Sound canon files { w with store := store } ∧ w.Grows canon { w with store := store } := by
  have hg : w.store.Grows store := by rw [hstore]; exact .of_eq rfl rfl rfl
  have hgrows : w.Grows canon { w with store := store } :=
    ⟨hg, fun f hf => .inl (by rw [hstore] at hf; exact hf), rfl, rfl, fun _ h => h, fun _ h => h, fun _ h => h⟩
  have hs := hw.store
  refine ⟨hw.grow hgrows ?_ rfl (fun _ _ h => .inl h) (fun _ _ h => .inl h) (fun _ h => .inl h), hgrows⟩
  refine hs.grow hg ?_ (fun e he => .inl ?_) (fun r h => ?_) (fun r h => ?_) (fun d h => ?_)
  · rw [hstore]
    exact ⟨hs.unitIds, hs.indexFiles, hs.fileIds, hs.paths, hs.entityIds, hs.entityKeys⟩
  · rw [hstore] at he
    exact he
  · rw [hstore] at h
    exact (List.mem_append.1 h).imp_right fun h => (hr r h).mono hg
  · rw [hstore] at h
    exact (List.mem_append.1 h).imp_right fun h => (hl r h).mono hg
  · rw [hstore] at h
    exact (List.mem_append.1 h).imp_right fun h => (hd d h).mono (fun _ => hg.hasUnit) (fun _ => hg.hasFile)

/-- A step that leaves entities and caches alone touches no key. -/
theorem Touches.of_eq {store : Store} (hw : w.Sound canon files) (hw' : Sound canon files { w with store := store })
    (hg : w.Grows canon { w with store := store }) (he : store.entities = w.store.entities) :
    Mentions canon w { w with store := store } [] :=
  ⟨fun _ h => (by cases h), ⟨[], rfl, fun _ h => (by cases h)⟩, fun _ h => (by cases h), fun _ h => (by cases h),
    fun k _ => hg.store.row? hw.store hw'.store he k, fun _ _ _ => rfl⟩

/-- Taking in a reference adds a row of the unit that reads back as the reference. -/
theorem putReference_spec (hw : w.Sound canon files) {r : ReferenceRecord} (hr : r.check = .ok ()) :
    (w.putReference canon r).Sound canon files ∧ w.Grows canon (w.putReference canon r) ∧
      ∃ row, w.Adds (w.putReference canon r) [row] [] [] ∧ row.unit = w.unit ∧
        (w.Ready canon r.keys → Mentions canon w (w.putReference canon r) r.keys ∧
        (w.putReference canon r).store.referenceRecord? row = some (r.stored canon)) := by
  obtain ⟨hkeys, hline, hcolumn⟩ := ReferenceRecord.check_eq_ok hr
  rcases h1 : w.entityId canon r.entity with ⟨entity, w₁⟩
  rcases h2 : w₁.scopeId canon r.scope with ⟨scope, w₂⟩
  rcases h3 : w₂.fileId canon r.location.file with ⟨file, w₃⟩
  have hentity := hkeys r.entity List.mem_cons_self
  have hscope : ∀ key ∈ r.scope.toList, key.check = .ok () := fun key hk => hkeys key (List.mem_cons_of_mem _ hk)
  obtain ⟨hw₁, hg₁, ha₁, hid, -⟩ := entityId_spec hw hentity h1
  obtain ⟨hw₂, hg₂, ha₂, hsid, hs₂⟩ := scopeId_spec hw₁ hscope h2
  obtain ⟨hw₃, hg₃, hpath, -⟩ := fileId_spec hw₂ h3
  obtain ⟨ha₃, hm₃⟩ := fileId_quiet hw₂ h3
  have hfile := hw₃.paths _ _ hpath
  let row : ReferenceRow := ⟨entity, file, r.location.line, r.location.column, r.kindId, scope, w₃.unit⟩
  let store : Store := { w₃.store with references := w₃.store.references ++ [row] }
  have hput : w.putReference canon r = { w₃ with store := store } := by
    unfold putReference
    simp only [h1, h2, h3]
    rfl
  -- the ids found on the way are still there when the row is added
  have hlinked : row.Linked w₃.store :=
    ⟨(hg₂.trans hg₃).store.hasEntity hid, ⟨_, hfile, rfl⟩, hw₃.unit, fun i hi => hg₃.store.hasEntity (hsid i hi), hline,
      hcolumn⟩
  have hstore : store = { w₃.store with
      references := w₃.store.references ++ [row]
      relations := w₃.store.relations ++ []
      dependencies := w₃.store.dependencies ++ [] } := by simp only [store, List.append_nil]
  obtain ⟨hsound, hgrows⟩ := hw₃.append [row] [] [] (fun x hx => by rwa [List.mem_singleton.1 hx])
    (fun _ h => by cases h) (fun _ h => by cases h) hstore
  rw [hput]
  refine ⟨hsound, ((hg₁.trans hg₂).trans hg₃).trans hgrows, row, ?_, ?_, fun hc => ?_⟩
  · exact ((ha₁.trans ha₂).trans ha₃).trans ⟨rfl, rfl, rfl, (List.append_nil _).symm, (List.append_nil _).symm⟩
  · exact ((hg₁.trans hg₂).trans hg₃).unit
  have hc' : w.Ready canon ([r.entity] ++ r.scope.toList) := hc
  obtain ⟨hm₁, hn₁⟩ := entityId_mentions hw hentity h1 hc'.left
  obtain ⟨hm₂, hscope₂⟩ := hs₂ (hm₁.ready hc')
  constructor
  · have := ((hm₁.trans hm₂ hg₂).trans hm₃ hg₃).trans (Touches.of_eq hw₃ hsound hgrows rfl) hgrows
    simpa [ReferenceRecord.keys] using this
  · have hn : w₃.store.Names row.entity (r.entity.stored canon) :=
      (hg₂.trans hg₃).store.names hw₁.store hw₃.store hn₁
    have hsc : row.scope.bind w₃.store.keyAt? = r.scope.map (EntityKey.stored canon) := by
      rw [← hscope₂]
      show scope.bind _ = _
      rcases scope with _ | i
      · rfl
      · exact hg₃.store.keyAt? hw₂.store hw₃.store (hsid i rfl)
    have hf : ⟨row.file, canon r.location.file⟩ ∈ w₃.store.files := hfile
    rw [hgrows.store.referenceRecord? hw₃.store hsound.store hlinked]
    unfold Store.referenceRecord?
    rw [(Store.keyAt?_eq_some hw₃.store).2 hn, (Store.pathAt?_eq_some hw₃.store).2 hf, hsc]
    rfl

/-- Taking in a relation adds a row of the unit that reads back as the relation. -/
theorem putRelation_spec (hw : w.Sound canon files) {r : RelationRecord} (hr : r.check = .ok ()) :
    (w.putRelation canon r).Sound canon files ∧ w.Grows canon (w.putRelation canon r) ∧
      ∃ row, w.Adds (w.putRelation canon r) [] [row] [] ∧ row.unit = w.unit ∧
        (w.Ready canon r.keys → Mentions canon w (w.putRelation canon r) r.keys ∧
        (w.putRelation canon r).store.relationRecord? row = some (r.stored canon)) := by
  have hkeys := RelationRecord.check_eq_ok hr
  rcases h1 : w.entityId canon r.source with ⟨source, w₁⟩
  rcases h2 : w₁.entityId canon r.target with ⟨target, w₂⟩
  have hsource := hkeys r.source (by simp [RelationRecord.keys])
  have htarget := hkeys r.target (by simp [RelationRecord.keys])
  obtain ⟨hw₁, hg₁, ha₁, hid₁, -⟩ := entityId_spec hw hsource h1
  obtain ⟨hw₂, hg₂, ha₂, hid₂, -⟩ := entityId_spec hw₁ htarget h2
  let row : RelationRow := ⟨source, target, r.kind, r.order, r.parameterKind, w₂.unit⟩
  let store : Store := { w₂.store with relations := w₂.store.relations ++ [row] }
  have hput : w.putRelation canon r = { w₂ with store := store } := by
    unfold putRelation
    simp only [h1, h2]
    rfl
  have hlinked : row.Linked w₂.store := ⟨hg₂.store.hasEntity hid₁, hid₂, hw₂.unit⟩
  have hstore : store = { w₂.store with
      references := w₂.store.references ++ []
      relations := w₂.store.relations ++ [row]
      dependencies := w₂.store.dependencies ++ [] } := by simp only [store, List.append_nil]
  obtain ⟨hsound, hgrows⟩ := hw₂.append [] [row] [] (fun _ h => by cases h)
    (fun x hx => by rwa [List.mem_singleton.1 hx]) (fun _ h => by cases h) hstore
  rw [hput]
  refine ⟨hsound, (hg₁.trans hg₂).trans hgrows, row, ?_, ?_, fun hc => ?_⟩
  · exact (ha₁.trans ha₂).trans ⟨rfl, rfl, (List.append_nil _).symm, rfl, (List.append_nil _).symm⟩
  · exact (hg₁.trans hg₂).unit
  have hc' : w.Ready canon ([r.source] ++ [r.target]) := hc
  obtain ⟨hm₁, hn₁⟩ := entityId_mentions hw hsource h1 hc'.left
  obtain ⟨hm₂, hn₂⟩ := entityId_mentions hw₁ htarget h2 (hm₁.ready hc')
  constructor
  · exact (hm₁.trans hm₂ hg₂).trans (Touches.of_eq hw₂ hsound hgrows rfl) hgrows
  · have hns : w₂.store.Names row.source (r.source.stored canon) := hg₂.store.names hw₁.store hw₂.store hn₁
    have hnt : w₂.store.Names row.target (r.target.stored canon) := hn₂
    rw [hgrows.store.relationRecord? hw₂.store hsound.store hlinked]
    unfold Store.relationRecord?
    rw [(Store.keyAt?_eq_some hw₂.store).2 hns, (Store.keyAt?_eq_some hw₂.store).2 hnt]
    rfl

/-! ## Dependencies -/

/-- The source files of a unit are the files with the texts that were taken in, each once. -/
theorem Sound.sources_perm (hw : w.Sound canon files) :
    (w.sources.map w.store.pathAt?).Perm (files.dedup.map some) := by
  refine (List.perm_ext_iff_of_nodup ?_ ?_).2 fun p => ?_
  · refine List.Nodup.map_on (fun i hi j hj hij => ?_) (hw.ascending.imp fun h => ne_of_lt h)
    obtain ⟨p, -, hp⟩ := hw.sources i hi
    obtain ⟨q, -, hq⟩ := hw.sources j hj
    rw [(Store.pathAt?_eq_some hw.store).2 hp, (Store.pathAt?_eq_some hw.store).2 hq, Option.some.injEq] at hij
    have := List.inj_on_of_nodup_map hw.store.paths hp hq hij
    exact (SourceFile.mk.inj this).1
  · exact (List.nodup_dedup files).map (Option.some_injective _)
  · simp only [List.mem_map, List.mem_dedup]
    constructor
    · rintro ⟨i, hi, rfl⟩
      obtain ⟨p, hp, hm⟩ := hw.sources i hi
      exact ⟨p, hp, ((Store.pathAt?_eq_some hw.store).2 hm).symm⟩
    · rintro ⟨p, hp, rfl⟩
      obtain ⟨i, hi, hm⟩ := hw.taken p hp
      exact ⟨i, hi, (Store.pathAt?_eq_some hw.store).2 hm⟩

/-- A source file other than a given one has another path. -/
theorem Sound.filter_sources (hw : w.Sound canon files) {target : Int} {path : String}
    (ht : ⟨target, path⟩ ∈ w.store.files) :
    (w.sources.filter fun source => source != target).map w.store.pathAt? =
      (w.sources.map w.store.pathAt?).filter fun p => p ≠ some path := by
  rw [List.filter_map]
  congr 1
  apply List.filter_congr
  intro i hi
  obtain ⟨p, -, hp⟩ := hw.sources i hi
  simp only [Function.comp, (Store.pathAt?_eq_some hw.store).2 hp]
  rw [Bool.eq_iff_iff]
  simp only [bne_iff_ne, ne_eq, decide_eq_true_eq, Option.some.injEq]
  constructor
  · rintro hne rfl
    exact hne (SourceFile.mk.inj (List.inj_on_of_nodup_map hw.store.paths hp ht rfl)).1
  · rintro hne rfl
    exact hne (SourceFile.mk.inj (List.inj_on_of_nodup_map hw.store.fileIds hp ht rfl)).2

/-- The dependencies of source files on one file. -/
def dependenciesOn (files : List String) (target : String) : List (String × String) :=
  (files.dedup.filter fun p => p ≠ target).map fun p => (p, target)

/-- Taking in a dependency adds rows of the unit, one for every other source file. -/
theorem putDependency_spec (hw : w.Sound canon files) (path : String) :
    (w.putDependency canon path).Sound canon files ∧ w.Grows canon (w.putDependency canon path) ∧
      Mentions canon w (w.putDependency canon path) [] ∧
      ∃ rows, w.Adds (w.putDependency canon path) [] [] rows ∧ (∀ row ∈ rows, row.unit = w.unit) ∧
        (rows.map (w.putDependency canon path).store.dependencyPaths?).Perm
          ((dependenciesOn files (canon path)).map some) := by
  rcases h1 : w.fileId canon path with ⟨target, w₁⟩
  obtain ⟨hw₁, hg₁, hpath, -⟩ := fileId_spec hw h1
  obtain ⟨ha₁, hm₁⟩ := fileId_quiet hw h1
  have hfile := hw₁.paths _ _ hpath
  let rows : List DependencyRow := (w₁.sources.filter fun source => source != target).map fun source =>
    ⟨source, target, w₁.unit⟩
  let store : Store := { w₁.store with dependencies := w₁.store.dependencies ++ rows }
  have hput : w.putDependency canon path = { w₁ with store := store } := by
    unfold putDependency
    simp only [h1]
    rfl
  have hlinked : ∀ d ∈ rows, d.Linked w₁.store := by
    intro d hd
    obtain ⟨i, hi, rfl⟩ := List.mem_map.1 hd
    obtain ⟨hi, hne⟩ := List.mem_filter.1 hi
    obtain ⟨p, -, hp⟩ := hw₁.sources i hi
    exact ⟨⟨_, hp, rfl⟩, ⟨_, hfile, rfl⟩, by simpa using hne, hw₁.unit⟩
  have hstore : store = { w₁.store with
      references := w₁.store.references ++ []
      relations := w₁.store.relations ++ []
      dependencies := w₁.store.dependencies ++ rows } := by simp only [store, List.append_nil]
  obtain ⟨hsound, hgrows⟩ := hw₁.append [] [] rows (fun _ h => by cases h) (fun _ h => by cases h) hlinked hstore
  rw [hput]
  refine ⟨hsound, hg₁.trans hgrows, hm₁.trans (Touches.of_eq hw₁ hsound hgrows rfl) hgrows, rows,
    ha₁.trans ⟨rfl, rfl, (List.append_nil _).symm, (List.append_nil _).symm, rfl⟩, fun d hd => ?_, ?_⟩
  · obtain ⟨i, -, rfl⟩ := List.mem_map.1 hd
    exact hg₁.unit
  · have hread : ∀ i ∈ w₁.sources.filter fun source => source != target,
        store.dependencyPaths? ⟨i, target, w₁.unit⟩ = (w₁.store.pathAt? i).map fun p => (p, canon path) := by
      intro i hi
      rw [hgrows.store.dependencyPaths? hw₁.store hsound.store (hlinked _ (List.mem_map.2 ⟨i, hi, rfl⟩))]
      unfold Store.dependencyPaths?
      rw [(Store.pathAt?_eq_some hw₁.store).2 hfile]
      cases w₁.store.pathAt? i <;> rfl
    -- the rows name source files by id, the paths that a unit lists may repeat
    show (rows.map store.dependencyPaths?).Perm _
    have hrows : rows.map store.dependencyPaths? =
        ((w₁.sources.map w₁.store.pathAt?).filter fun p => p ≠ some (canon path)).map
          (Option.map fun p => (p, canon path)) := by
      rw [← hw₁.filter_sources hfile, List.map_map, List.map_map]
      exact List.map_congr_left hread
    rw [hrows]
    refine ((hw₁.sources_perm.filter _).map _).trans ?_
    rw [List.filter_map]
    simp [dependenciesOn, Function.comp_def]

/-! ## Added rows keep their reading -/

section Readings

variable {w₁ w₂ : Writer} {references : List ReferenceRow} {relations : List RelationRow}
  {dependencies : List DependencyRow}

theorem Adds.referenceRecord? (ha : w.Adds w₁ references relations dependencies) (hw₁ : w₁.Sound canon files)
    (hw₂ : w₂.Sound canon files) (hg : w₁.Grows canon w₂) :
    references.map w₂.store.referenceRecord? = references.map w₁.store.referenceRecord? := by
  refine List.map_congr_left fun row hrow => hg.store.referenceRecord? hw₁.store hw₂.store ?_
  apply hw₁.store.references row
  rw [ha.references]
  exact List.mem_append_right _ hrow

theorem Adds.relationRecord? (ha : w.Adds w₁ references relations dependencies) (hw₁ : w₁.Sound canon files)
    (hw₂ : w₂.Sound canon files) (hg : w₁.Grows canon w₂) :
    relations.map w₂.store.relationRecord? = relations.map w₁.store.relationRecord? := by
  refine List.map_congr_left fun row hrow => hg.store.relationRecord? hw₁.store hw₂.store ?_
  apply hw₁.store.relations row
  rw [ha.relations]
  exact List.mem_append_right _ hrow

theorem Adds.dependencyPaths? (ha : w.Adds w₁ references relations dependencies) (hw₁ : w₁.Sound canon files)
    (hw₂ : w₂.Sound canon files) (hg : w₁.Grows canon w₂) :
    dependencies.map w₂.store.dependencyPaths? = dependencies.map w₁.store.dependencyPaths? := by
  refine List.map_congr_left fun row hrow => hg.store.dependencyPaths? hw₁.store hw₂.store ?_
  apply hw₁.store.dependencies row
  rw [ha.dependencies]
  exact List.mem_append_right _ hrow

end Readings

/-! ## Lists of records -/

/-- What all records of a key in a list do to the row of the key. -/
def putAll (canon : String → String) (files : List String) (unit : Int) (rs : List EntityRecord) (k : EntityKey)
    (e : EntityRow) : EntityRow :=
  rs.foldl (fun e r => if r.key.stored canon = k then r.put (k.within files) unit e else e) e

theorem addSources_spec :
    ∀ (paths : List String) {files : List String} {w : Writer}, w.Sound canon files → w.keys = [] →
    w.kept = [] →
    (paths.foldl (addSource canon) w).Sound canon (files ++ paths.map canon) ∧
      w.Grows canon (paths.foldl (addSource canon) w) ∧ (paths.foldl (addSource canon) w).keys = [] ∧
      (∃ fs, (paths.foldl (addSource canon) w).store = { w.store with files := fs })
  | [], files, w, hw, hkeys, hkept => by
    rw [List.map_nil, List.append_nil]
    exact ⟨hw, .refl canon w, hkeys, w.store.files, rfl⟩
  | path :: paths, files, w, hw, hkeys, hkept => by
    obtain ⟨hw₁, hg₁, hkeys₁, hkept₁, fs₁, hfs₁⟩ := addSource_spec hw hkeys hkept path
    obtain ⟨hw₂, hg₂, hkeys₂, fs₂, hfs₂⟩ := addSources_spec paths hw₁ hkeys₁ hkept₁
    rw [List.foldl_cons, List.map_cons, List.append_cons]
    exact ⟨hw₂, hg₁.trans hg₂, hkeys₂, fs₂, by rw [hfs₂, hfs₁]⟩

theorem putEntities_spec : ∀ {rs : List EntityRecord} {w : Writer}, w.Sound canon files →
    (∀ r ∈ rs, r.key.check = .ok ()) →
    (rs.foldl (putEntity canon) w).Sound canon files ∧ w.Grows canon (rs.foldl (putEntity canon) w) ∧
      w.Adds (rs.foldl (putEntity canon) w) [] [] [] ∧
      (rs.foldl (putEntity canon) w).cached = (rs.map EntityRecord.key).reverse ++ w.cached ∧
      Touches canon w (rs.foldl (putEntity canon) w) (rs.map EntityRecord.key) (putAll canon files w.unit rs)
  | [], w, hw, _ => ⟨hw, .refl canon w, .refl w, rfl, .refl canon w⟩
  | r :: rs, w, hw, hrs => by
    obtain ⟨hw₁, hg₁, ha₁, id, hkeys, hsettles⟩ := putEntity_spec hw (hrs r List.mem_cons_self)
    obtain ⟨hw₂, hg₂, ha₂, hcached, htouch₂⟩ := putEntities_spec hw₁ fun r' h => hrs r' (List.mem_cons_of_mem _ h)
    have htouch₁ : Touches canon w (w.putEntity canon r) [r.key] (putAll canon files w.unit [r]) := by
      have hput : r.put ((r.key.stored canon).within files) w.unit =
          putAll canon files w.unit [r] (r.key.stored canon) := by
        funext e
        simp [putAll]
      rw [hput] at hsettles
      refine hsettles.touches ?_ ⟨[(r.key, id)], hkeys, by simp⟩ ⟨(r.key, id), by simp [hkeys], rfl⟩ (fun k hk e => ?_)
      · simp [known?, hkeys, EntityKey.same_refl]
      · simp [putAll, Ne.symm hk]
    rw [hg₁.unit] at htouch₂
    refine ⟨hw₂, hg₁.trans hg₂, ha₁.trans ha₂, ?_, htouch₁.trans htouch₂ hg₂⟩
    rw [List.foldl_cons, hcached, cached, hkeys]
    simp [cached]

theorem putReferences_spec : ∀ {rs : List ReferenceRecord} {w : Writer}, w.Sound canon files →
    (∀ r ∈ rs, r.check = .ok ()) →
    (rs.foldl (putReference canon) w).Sound canon files ∧ w.Grows canon (rs.foldl (putReference canon) w) ∧
      ∃ rows, w.Adds (rs.foldl (putReference canon) w) rows [] [] ∧ (∀ row ∈ rows, row.unit = w.unit) ∧
        (w.Ready canon (rs.flatMap ReferenceRecord.keys) →
          Mentions canon w (rs.foldl (putReference canon) w) (rs.flatMap ReferenceRecord.keys) ∧
          rows.map (rs.foldl (putReference canon) w).store.referenceRecord? = rs.map fun r => some (r.stored canon))
  | [], w, hw, _ => ⟨hw, .refl canon w, [], .refl w, fun _ h => (by cases h), fun _ => ⟨.refl canon w, rfl⟩⟩
  | r :: rs, w, hw, hrs => by
    obtain ⟨hw₁, hg₁, row, ha₁, hunit, hm₁⟩ := putReference_spec hw (hrs r List.mem_cons_self)
    obtain ⟨hw₂, hg₂, rows, ha₂, hunits, hm₂⟩ := putReferences_spec hw₁ fun r' h => hrs r' (List.mem_cons_of_mem _ h)
    rw [List.foldl_cons]
    refine ⟨hw₂, hg₁.trans hg₂, row :: rows, ha₁.trans ha₂, fun x hx => ?_, fun hc => ?_⟩
    · rcases List.mem_cons.1 hx with rfl | hx
      · exact hunit
      · exact (hunits x hx).trans hg₁.unit
    rw [List.flatMap_cons] at hc ⊢
    obtain ⟨hm₁, hread₁⟩ := hm₁ hc.left
    obtain ⟨hm₂, hread₂⟩ := hm₂ (hm₁.ready hc)
    refine ⟨hm₁.trans hm₂ hg₂, ?_⟩
    have hstay := ha₁.referenceRecord? hw₁ hw₂ hg₂
    rw [List.map_singleton, List.map_singleton, hread₁] at hstay
    rw [List.map_cons, List.map_cons, hread₂, List.head_eq_of_cons_eq hstay]

theorem putRelations_spec : ∀ {rs : List RelationRecord} {w : Writer}, w.Sound canon files →
    (∀ r ∈ rs, r.check = .ok ()) →
    (rs.foldl (putRelation canon) w).Sound canon files ∧ w.Grows canon (rs.foldl (putRelation canon) w) ∧
      ∃ rows, w.Adds (rs.foldl (putRelation canon) w) [] rows [] ∧ (∀ row ∈ rows, row.unit = w.unit) ∧
        (w.Ready canon (rs.flatMap RelationRecord.keys) →
          Mentions canon w (rs.foldl (putRelation canon) w) (rs.flatMap RelationRecord.keys) ∧
          rows.map (rs.foldl (putRelation canon) w).store.relationRecord? = rs.map fun r => some (r.stored canon))
  | [], w, hw, _ => ⟨hw, .refl canon w, [], .refl w, fun _ h => (by cases h), fun _ => ⟨.refl canon w, rfl⟩⟩
  | r :: rs, w, hw, hrs => by
    obtain ⟨hw₁, hg₁, row, ha₁, hunit, hm₁⟩ := putRelation_spec hw (hrs r List.mem_cons_self)
    obtain ⟨hw₂, hg₂, rows, ha₂, hunits, hm₂⟩ := putRelations_spec hw₁ fun r' h => hrs r' (List.mem_cons_of_mem _ h)
    rw [List.foldl_cons]
    refine ⟨hw₂, hg₁.trans hg₂, row :: rows, ha₁.trans ha₂, fun x hx => ?_, fun hc => ?_⟩
    · rcases List.mem_cons.1 hx with rfl | hx
      · exact hunit
      · exact (hunits x hx).trans hg₁.unit
    rw [List.flatMap_cons] at hc ⊢
    obtain ⟨hm₁, hread₁⟩ := hm₁ hc.left
    obtain ⟨hm₂, hread₂⟩ := hm₂ (hm₁.ready hc)
    refine ⟨hm₁.trans hm₂ hg₂, ?_⟩
    have hstay := ha₁.relationRecord? hw₁ hw₂ hg₂
    rw [List.map_singleton, List.map_singleton, hread₁] at hstay
    rw [List.map_cons, List.map_cons, hread₂, List.head_eq_of_cons_eq hstay]

theorem putDependencies_spec : ∀ (paths : List String) {w : Writer}, w.Sound canon files →
    (paths.foldl (putDependency canon) w).Sound canon files ∧ w.Grows canon (paths.foldl (putDependency canon) w) ∧
      Mentions canon w (paths.foldl (putDependency canon) w) [] ∧
      ∃ rows, w.Adds (paths.foldl (putDependency canon) w) [] [] rows ∧ (∀ row ∈ rows, row.unit = w.unit) ∧
        (rows.map (paths.foldl (putDependency canon) w).store.dependencyPaths?).Perm
          ((paths.flatMap fun path => dependenciesOn files (canon path)).map some)
  | [], w, hw => ⟨hw, .refl canon w, .refl canon w, [], .refl w, fun _ h => (by cases h), .refl _⟩
  | path :: paths, w, hw => by
    obtain ⟨hw₁, hg₁, hm₁, rows₁, ha₁, hunit, hread₁⟩ := putDependency_spec hw path
    obtain ⟨hw₂, hg₂, hm₂, rows₂, ha₂, hunits, hread₂⟩ := putDependencies_spec paths hw₁
    rw [List.foldl_cons]
    refine ⟨hw₂, hg₁.trans hg₂, hm₁.trans hm₂ hg₂, rows₁ ++ rows₂, ha₁.trans ha₂, fun x hx => ?_, ?_⟩
    · rcases List.mem_append.1 hx with hx | hx
      · exact hunit x hx
      · exact (hunits x hx).trans hg₁.unit
    · rw [List.map_append, List.flatMap_cons, List.map_append]
      refine List.Perm.append ?_ hread₂
      rw [ha₁.dependencyPaths? hw₁ hw₂ hg₂]
      exact hread₁

/-! ## The whole unit -/

/-- What there is when all records of a unit have been taken in: the unit's rows read back as its
records, the other rows are those of before, and all its keys are cached. -/
structure Drafted (canon : String → String) (s : Store) (u : UnitRecord) (w : Writer) : Prop where
  sound : w.Sound canon (u.sourceFiles.map canon)
  grows : s.Grows w.store
  unit : w.unit = (s.enterUnit u).1
  units : w.store.units = (s.enterUnit u).2.units
  owned : w.owned = s.ownedBy w.unit
  known : ∀ key ∈ u.recorded ++ u.mentioned, (w.known? key).isSome
  fresh : ∀ entry ∈ w.keys, entry.1 ∈ u.recorded ++ u.mentioned
  listed : ∀ k ∈ (u.recorded ++ u.mentioned).map (EntityKey.stored canon), ∃ entry ∈ w.keys, entry.1.stored canon = k
  row : ∀ k ∈ (u.recorded ++ u.mentioned).map (EntityKey.stored canon), ∃ decl id, w.store.row? k =
    some (putAll canon (u.sourceFiles.map canon) w.unit u.entities k ((s.row? k).getD (Store.stub k.name decl id)))
  other : ∀ k, k ∉ (u.recorded ++ u.mentioned).map (EntityKey.stored canon) → w.store.row? k = s.row? k
  references : ∃ rows, w.store.references = (s.references.filter fun r => r.unit != w.unit) ++ rows ∧
    (∀ row ∈ rows, row.unit = w.unit) ∧
    rows.map w.store.referenceRecord? = u.references.map fun r => some (r.stored canon)
  relations : ∃ rows, w.store.relations = (s.relations.filter fun r => r.unit != w.unit) ++ rows ∧
    (∀ row ∈ rows, row.unit = w.unit) ∧
    rows.map w.store.relationRecord? = u.relations.map fun r => some (r.stored canon)
  dependencies : ∃ rows, w.store.dependencies = (s.dependencies.filter fun d => d.unit != w.unit) ++ rows ∧
    (∀ row ∈ rows, row.unit = w.unit) ∧ (rows.map w.store.dependencyPaths?).Perm
      ((u.dependencies.flatMap fun path => dependenciesOn (u.sourceFiles.map canon) (canon path)).map some)

theorem enterUnit_eq (s : Store) (u : UnitRecord) :
    (s.enterUnit u).2 = { s with units := (s.enterUnit u).2.units } := by
  unfold Store.enterUnit
  split <;> rfl

theorem start_sound {s : Store} (hs : s.Sound) (u : UnitRecord) : (start s u).Sound canon [] := by
  obtain ⟨hs', -, hm⟩ := Store.enterUnit_spec hs u
  exact ⟨Store.deleteUnitRows_sound hs' _, ⟨_, hm, rfl⟩, fun _ h => (by cases h), fun _ h => (by cases h), .nil,
    fun _ _ h => (by cases h), fun _ _ h => (by cases h), fun _ h => (by cases h), fun _ _ h => (by cases h)⟩

theorem start_store (s : Store) (u : UnitRecord) :
    (start s u).store = { s with
      units := (s.enterUnit u).2.units
      references := s.references.filter fun r => r.unit != (start s u).unit
      relations := s.relations.filter fun r => r.unit != (start s u).unit
      dependencies := s.dependencies.filter fun d => d.unit != (start s u).unit } := by
  show (s.enterUnit u).2.deleteUnitRows (s.enterUnit u).1 = _
  rw [enterUnit_eq]
  rfl

theorem start_owned (s : Store) (u : UnitRecord) : (start s u).owned = s.ownedBy (start s u).unit := by
  show (s.enterUnit u).2.ownedBy (s.enterUnit u).1 = s.ownedBy (s.enterUnit u).1
  rw [enterUnit_eq]
  rfl

/-- Taking in all records of a unit without defects, whose keys are stored as the cache finds them. -/
theorem drafted_of_spelled {s : Store} (hs : s.Sound) {u : UnitRecord} (hu : u.check = .ok ()) :
    (s.drafted canon u).Sound canon (u.sourceFiles.map canon) ∧
      (∀ f ∈ (s.drafted canon u).store.files, f ∈ s.files ∨ ∃ path, f.path = canon path) ∧
      (u.Spelled canon → Drafted canon s u (s.drafted canon u)) := by
  obtain ⟨hes, hrs, hls⟩ := UnitRecord.check_eq_ok hu
  have hw₀ : (start s u).Sound canon [] := start_sound hs u
  obtain ⟨hw₁, hg₁, hk₁, fs, hf₁⟩ := addSources_spec u.sourceFiles hw₀ rfl rfl
  rw [List.nil_append] at hw₁
  let w₁ := u.sourceFiles.foldl (addSource canon) (start s u)
  obtain ⟨hw₂, hg₂, ha₂, hcached, ht₂⟩ := putEntities_spec hw₁ hes
  let w₂ := u.entities.foldl (putEntity canon) w₁
  obtain ⟨hw₃, hg₃, rows₃, ha₃, hunit₃, ht₃⟩ := putReferences_spec hw₂ hrs
  let w₃ := u.references.foldl (putReference canon) w₂
  obtain ⟨hw₄, hg₄, rows₄, ha₄, hunit₄, ht₄⟩ := putRelations_spec hw₃ hls
  let w₄ := u.relations.foldl (putRelation canon) w₃
  obtain ⟨hw₅, hg₅, ht₅, rows₅, ha₅, hunit₅, hread₅⟩ := putDependencies_spec u.dependencies hw₄
  have hg := ((hg₂.trans hg₃).trans hg₄).trans hg₅
  refine ⟨hw₅, fun f hf => ?_, fun hc => ?_⟩
  · have h := (hg₁.trans hg).files f hf
    rw [start_store] at h
    exact h
  have ha := ((ha₂.trans ha₃).trans ha₄).trans ha₅
  -- nothing is cached before the entities, and each part caches only its own keys
  have hc₂ : w₂.Ready canon u.mentioned := by
    have hrecorded : w₂.cached = u.recorded.reverse := by
      rw [show w₂.cached = _ from hcached, cached, hk₁, List.map_nil, List.append_nil]
      rfl
    refine ⟨fun key hk key' hf => hc.latest key hk key' ?_, hc.alike⟩
    rw [← hrecorded]
    exact hf
  obtain ⟨ht₃, hread₃⟩ := ht₃ hc₂.left
  obtain ⟨ht₄, hread₄⟩ := ht₄ (ht₃.ready hc₂)
  have ht := ((ht₂.trans ht₃ hg₃).trans ht₄ hg₄).trans ht₅ hg₅
  have hkeys : u.entities.map EntityRecord.key ++ u.references.flatMap ReferenceRecord.keys ++
      u.relations.flatMap RelationRecord.keys ++ [] = u.recorded ++ u.mentioned := by
    simp [UnitRecord.recorded, UnitRecord.mentioned]
  rw [hkeys] at ht
  have hrow : ∀ k, w₁.store.row? k = s.row? k := by
    intro k
    have h₀ : (start s u).store.row? k = s.row? k := by rw [start_store]; rfl
    rw [← h₀]
    exact hg₁.store.row? hw₀.store hw₁.store (by rw [hf₁]) k
  have hgs : s.Grows (start s u).store := by
    obtain ⟨-, hg, -⟩ := Store.enterUnit_spec hs u
    exact hg.trans (.of_eq rfl rfl rfl)
  have hwunit : (s.drafted canon u).unit = (start s u).unit := (hg₁.trans hg).unit
  refine ⟨hw₅, hgs.trans (hg₁.trans hg).store, hwunit, ?_, ?_, ht.known, fun entry he => ?_, ht.listed, fun k hk => ?_,
    fun k hk => ?_, ⟨rows₃, ?_, fun row h => ?_, ?_⟩, ⟨rows₄, ?_, fun row h => ?_, ?_⟩,
    ⟨rows₅, ?_, fun row h => ?_, hread₅⟩⟩
  · rw [show (s.drafted canon u).store.units = w₁.store.units from ha.units, hf₁, start_store]
  · rw [hwunit, ← start_owned]
    exact (hg₁.trans hg).owned
  · obtain ⟨new, hnew, hin⟩ := ht.fresh
    rw [hk₁, List.append_nil] at hnew
    exact hin entry (hnew ▸ he)
  · obtain ⟨decl, id, h⟩ := ht.row k hk
    rw [hrow] at h
    exact ⟨decl, id, by rw [show (s.drafted canon u).unit = w₁.unit from hg.unit]; exact h⟩
  · rw [← hrow]
    exact ht.other k hk
  · have hreferences : (s.drafted canon u).store.references = w₁.store.references ++ _ := ha.references
    rw [hwunit, hreferences, hf₁, start_store]
    simp
  · exact (hunit₃ row h).trans (hg₃.trans (hg₄.trans hg₅)).unit.symm
  · exact (ha₃.referenceRecord? hw₃ hw₅ (hg₄.trans hg₅)).trans hread₃
  · rw [hwunit, show (s.drafted canon u).store.relations = w₁.store.relations ++ _ from ha.relations, hf₁, start_store]
    simp
  · exact (hunit₄ row h).trans (hg₄.trans hg₅).unit.symm
  · exact (ha₄.relationRecord? hw₄ hw₅ hg₅).trans hread₄
  · rw [hwunit, show (s.drafted canon u).store.dependencies = w₁.store.dependencies ++ _ from ha.dependencies, hf₁,
      start_store]
    simp
  · exact (hunit₅ row h).trans hg₅.unit.symm

/-- Taking in all records of a unit without defects. -/
theorem drafted_spec {s : Store} (hs : s.Sound) {u : UnitRecord} (hu : u.check = .ok ()) :
    (s.drafted canon u).Sound canon (u.sourceFiles.map canon) ∧
      (∀ f ∈ (s.drafted canon u).store.files, f ∈ s.files ∨ ∃ path, f.path = canon path) ∧
      (EntityKey.Alike canon (u.recorded ++ u.mentioned) → Drafted canon s u (s.drafted canon u)) := by
  obtain ⟨hw, hfiles, hd⟩ := drafted_of_spelled hs hu
  exact ⟨hw, hfiles, fun hc => hd (.of_alike hc)⟩

end Writer

namespace Store

/-- Writing a unit keeps the invariant. -/
theorem replaceUnit_sound {canon : String → String} {s : Store} (hs : s.Sound) {u : UnitRecord}
    (hu : u.check = .ok ()) : (s.replaceUnit canon u).Sound := by
  have hw : (s.drafted canon u).Sound canon (u.sourceFiles.map canon) := (Writer.drafted_spec hs hu).1
  unfold replaceUnit Writer.finish
  exact deleteEntities_sound hw.store _

theorem writeUnit_sound {canon : String → String} {s t : Store} (hs : s.Sound) {u : UnitRecord}
    (h : s.writeUnit canon u = .ok t) : t.Sound := by
  unfold writeUnit at h
  split at h
  · rename_i hu
    cases h
    exact replaceUnit_sound hs hu
  · cases h

theorem settle_dynamic_sound {s : Store} (hs : s.Sound) {r : EntityRecord} (hname : r.name ≠ "") {decl : Option Place}
    (hd : s.Placed decl) : (s.settle r.name decl (fun e => e) (r.row decl none true)).2.Sound := by
  have hrow : ∀ id, s.Fits id r.name decl (r.row decl none true id) := fun id =>
    ⟨rfl, rfl, rfl, hname, hd, fun _ h => by cases h⟩
  exact (settle_spec hs hd (fun e he hn hp => ⟨rfl, hn, hp, hs.entities e he⟩) hrow rfl).1

theorem insertEntity_eq {canon : String → String} {s t : Store} {r : EntityRecord} {e : Entity}
    (h : s.insertEntity canon r = .ok (e, t)) : r.key.check = .ok () ∧
    ((r.decl = none ∧ t = (s.settle r.name none (fun e => e) (r.row none none true)).2.bump) ∨
      ∃ l, r.decl = some l ∧ ∃ p, p = some ⟨(s.internFile (canon l.file)).1, l.line, l.column⟩ ∧
        t = ((s.internFile (canon l.file)).2.settle r.name p (fun e => e) (r.row p none true)).2.bump) := by
  unfold insertEntity at h
  split at h
  · cases h
  · rename_i hr
    refine ⟨hr, ?_⟩
    rw [settle_keep]
    rcases hd : r.decl with _ | l <;> simp only [hd] at h
    · left
      refine ⟨rfl, ?_⟩
      rcases hf : s.entityAt? r.name none with _ | e' <;> simp only [hf] at h <;> cases h <;> rfl
    · right
      refine ⟨l, rfl, _, rfl, ?_⟩
      rw [settle_keep]
      rcases hf : (s.internFile (canon l.file)).2.entityAt? r.name
        (some ⟨(s.internFile (canon l.file)).1, l.line, l.column⟩) with _ | e' <;>
        simp only [hf] at h <;> cases h <;> rfl

/-- Inserting an entity outside of any unit keeps the invariant. -/
theorem insertEntity_sound {canon : String → String} {s t : Store} (hs : s.Sound) {r : EntityRecord} {e : Entity}
    (h : s.insertEntity canon r = .ok (e, t)) : t.Sound := by
  obtain ⟨hr, ht⟩ := insertEntity_eq h
  obtain ⟨hname, hvalid⟩ : r.name ≠ "" ∧ _ := EntityKey.check_eq_ok hr
  rcases ht with ⟨-, rfl⟩ | ⟨l, hd, p, rfl, rfl⟩
  · exact bump_sound (settle_dynamic_sound hs hname fun _ h => by cases h)
  · obtain ⟨hs₁, -, hm⟩ := internFile_spec hs (canon l.file)
    refine bump_sound (settle_dynamic_sound hs₁ hname fun q hq => ?_)
    cases hq
    exact ⟨⟨_, hm, rfl⟩, hvalid l hd⟩

end Store

end CrossIndex
