/-
Entities by key. A row is read through the path text of its declaration file instead of the file's
id; in a sound store no two rows have the same key, and a row keeps its key while the store grows.
All three ways to put an entity into a store come down to `settle`: the row with a name and a place
is changed, or a new one is added. Main statement: afterwards that one key leads to the new row, and
every other key leads where it led before.
-/
import CrossIndex.Proofs.Store.Sound

namespace CrossIndex

/-- A location with its path as it is stored. -/
def Location.stored (canon : String → String) (l : Location) : Location :=
  { l with file := canon l.file }

/-- A key with its path as it is stored. -/
def EntityKey.stored (canon : String → String) (k : EntityKey) : EntityKey :=
  ⟨k.name, k.decl.map (Location.stored canon)⟩

namespace Store

/-- The location that a place stands for. -/
def location? (s : Store) (p : Place) : Option Location :=
  (s.file? p.file).map fun f => ⟨f.path, p.line, p.column⟩

/-- The key of an entity row. -/
def keyOf (s : Store) (e : EntityRow) : EntityKey :=
  ⟨e.name, e.decl.bind s.location?⟩

/-- The row with a key. -/
def row? (s : Store) (k : EntityKey) : Option EntityRow :=
  s.entities.find? fun e => s.keyOf e == k

/-- An id names a key: it is the id of a row with that key. -/
def Names (s : Store) (id : Int) (k : EntityKey) : Prop :=
  ∃ e ∈ s.entities, e.id = id ∧ s.keyOf e = k

/-- The place of a declaration is usable: its file is known and its position starts at 1. -/
def Placed (s : Store) (decl : Option Place) : Prop :=
  ∀ p, decl = some p → s.HasFile p.file ∧ 1 ≤ p.line ∧ 1 ≤ p.column

/-! ## Keys are unique -/

theorem location?_of_hasFile {s : Store} (hs : s.Sound) {p : Place} (hp : s.HasFile p.file) :
    ∃ f ∈ s.files, f.id = p.file ∧ s.location? p = some ⟨f.path, p.line, p.column⟩ := by
  obtain ⟨f, hf, hid⟩ := hp
  refine ⟨f, hf, hid, ?_⟩
  unfold location?
  rw [(file?_eq_some hs.toDistinct).2 ⟨hf, hid⟩]
  rfl

/-- Two usable places that stand for the same location are the same. -/
theorem place_inj {s : Store} (hs : s.Sound) {d d' : Option Place} (hd : s.Placed d) (hd' : s.Placed d')
    (h : d.bind s.location? = d'.bind s.location?) : d = d' := by
  rcases d with _ | p <;> rcases d' with _ | p'
  · rfl
  · obtain ⟨f, -, -, e⟩ := location?_of_hasFile hs (hd' p' rfl).1
    simp [e] at h
  · obtain ⟨f, -, -, e⟩ := location?_of_hasFile hs (hd p rfl).1
    simp [e] at h
  · obtain ⟨f, hf, hid, e⟩ := location?_of_hasFile hs (hd p rfl).1
    obtain ⟨f', hf', hid', e'⟩ := location?_of_hasFile hs (hd' p' rfl).1
    simp only [Option.bind_some, e, e', Option.some.injEq, Location.mk.injEq] at h
    obtain ⟨hpath, hline, hcol⟩ := h
    have : f = f' := List.inj_on_of_nodup_map hs.paths hf hf' hpath
    subst this
    rcases p with ⟨_, _, _⟩
    rcases p' with ⟨_, _, _⟩
    simp_all

theorem keyOf_inj {s : Store} (hs : s.Sound) {e e' : EntityRow} (he : e ∈ s.entities) (he' : e' ∈ s.entities)
    (h : s.keyOf e = s.keyOf e') : e = e' := by
  simp only [keyOf, EntityKey.mk.injEq] at h
  have hdecl := place_inj hs (hs.entities e he).decl (hs.entities e' he').decl h.2
  exact List.inj_on_of_nodup_map hs.entityKeys he he' (Prod.ext h.1 hdecl)

theorem nodup_keyOf {s : Store} (hs : s.Sound) : (s.entities.map s.keyOf).Nodup := by
  refine List.Nodup.map_on (fun e he e' he' h => keyOf_inj hs he he' h) ?_
  exact List.Nodup.of_map _ hs.entityIds

theorem row?_eq_some {s : Store} (hs : s.Sound) {k : EntityKey} {e : EntityRow} :
    s.row? k = some e ↔ e ∈ s.entities ∧ s.keyOf e = k :=
  find?_key_eq_some (nodup_keyOf hs)

theorem names_iff_row? {s : Store} (hs : s.Sound) {id : Int} {k : EntityKey} :
    s.Names id k ↔ ∃ e, s.row? k = some e ∧ e.id = id := by
  constructor
  · rintro ⟨e, he, hid, hk⟩
    exact ⟨e, (row?_eq_some hs).2 ⟨he, hk⟩, hid⟩
  · rintro ⟨e, hr, hid⟩
    obtain ⟨he, hk⟩ := (row?_eq_some hs).1 hr
    exact ⟨e, he, hid, hk⟩

theorem Names.hasEntity {s : Store} {id : Int} {k : EntityKey} (h : s.Names id k) : s.HasEntity id := by
  obtain ⟨e, he, hid, -⟩ := h
  exact ⟨e, he, hid⟩

/-- Within one store, two ids are equal exactly if the keys they name are. -/
theorem Names.id_eq_iff {s : Store} (hs : s.Sound) {id id' : Int} {k k' : EntityKey} (h : s.Names id k)
    (h' : s.Names id' k') : id = id' ↔ k = k' := by
  obtain ⟨e, he, rfl, rfl⟩ := h
  obtain ⟨e', he', rfl, rfl⟩ := h'
  constructor
  · intro hid
    rw [List.inj_on_of_nodup_map hs.entityIds he he' hid]
  · intro hk
    rw [keyOf_inj hs he he' hk]

/-- A search by name and place is a search by key. -/
theorem entityAt?_eq_row? {s : Store} (hs : s.Sound) {name : String} {decl : Option Place} (hd : s.Placed decl) :
    s.entityAt? name decl = s.row? ⟨name, decl.bind s.location?⟩ := by
  apply Option.ext
  intro e
  rw [entityAt?_eq_some hs.toDistinct, row?_eq_some hs]
  constructor
  · rintro ⟨he, rfl, rfl⟩
    exact ⟨he, rfl⟩
  · rintro ⟨he, hk⟩
    simp only [keyOf, EntityKey.mk.injEq] at hk
    exact ⟨he, hk.1, place_inj hs (hs.entities e he).decl hd hk.2⟩

/-! ## Keys stay while the store grows -/

theorem Grows.location? {s t : Store} (hg : s.Grows t) (hs : s.Sound) (ht : t.Sound) {p : Place}
    (hp : s.HasFile p.file) : t.location? p = s.location? p := by
  obtain ⟨f, hf, hid, e⟩ := location?_of_hasFile hs hp
  rw [e]
  unfold Store.location?
  rw [(file?_eq_some ht.toDistinct).2 ⟨hg.files f hf, hid⟩]
  rfl

theorem Grows.bind_location? {s t : Store} (hg : s.Grows t) (hs : s.Sound) (ht : t.Sound) {decl : Option Place}
    (hd : s.Placed decl) : decl.bind t.location? = decl.bind s.location? := by
  rcases decl with _ | p
  · rfl
  · exact hg.location? hs ht (hd p rfl).1

theorem Grows.keyOf {s t : Store} (hg : s.Grows t) (hs : s.Sound) (ht : t.Sound) {e : EntityRow} (he : e ∈ s.entities) :
    t.keyOf e = s.keyOf e := by
  unfold Store.keyOf
  rw [hg.bind_location? hs ht (hs.entities e he).decl]

theorem Grows.names {s t : Store} (hg : s.Grows t) (hs : s.Sound) (ht : t.Sound) {id : Int} {k : EntityKey}
    (h : s.Names id k) : t.Names id k := by
  obtain ⟨e, he, rfl, rfl⟩ := h
  obtain ⟨e', he', hid, hname, hdecl⟩ := hg.entities e he
  refine ⟨e', he', hid, ?_⟩
  rw [← hg.keyOf hs ht he]
  unfold Store.keyOf
  rw [hname, hdecl]

/-- With the same entity rows, every key leads where it led before. -/
theorem Grows.row? {s t : Store} (hg : s.Grows t) (hs : s.Sound) (ht : t.Sound) (he : t.entities = s.entities)
    (k : EntityKey) : t.row? k = s.row? k := by
  apply Option.ext
  intro e
  rw [row?_eq_some ht, row?_eq_some hs, he]
  constructor
  · rintro ⟨h1, h2⟩
    exact ⟨h1, by rw [← hg.keyOf hs ht h1]; exact h2⟩
  · rintro ⟨h1, h2⟩
    exact ⟨h1, by rw [hg.keyOf hs ht h1]; exact h2⟩

/-! ## Putting an entity into a store -/

/-- Changes the row with a name and a place, or adds one; the id of the row, and the store. -/
def settle (s : Store) (name : String) (decl : Option Place) (change : EntityRow → EntityRow)
    (row : Int → EntityRow) : Int × Store :=
  match s.entityAt? name decl with
  | some e => (e.id, s.updateEntity e.id change)
  | none => s.addEntity row

/-- A row that may stand under a name and a place. -/
structure Fits (s : Store) (id : Int) (name : String) (decl : Option Place) (e : EntityRow) : Prop where
  id : e.id = id
  name : e.name = name
  decl : e.decl = decl
  linked : e.Linked s

theorem mem_updateEntity {s : Store} (hs : s.Sound) {e : EntityRow} (he : e ∈ s.entities)
    {change : EntityRow → EntityRow} {x : EntityRow} :
    x ∈ (s.updateEntity e.id change).entities ↔ x = change e ∨ (x ∈ s.entities ∧ x ≠ e) := by
  simp only [updateEntity, List.mem_map]
  constructor
  · rintro ⟨y, hy, rfl⟩
    by_cases hid : y.id = e.id
    · obtain rfl := List.inj_on_of_nodup_map hs.entityIds hy he hid
      simp
    · exact .inr (by simpa [hid] using ⟨hy, fun h => hid (by rw [h])⟩)
  · rintro (rfl | ⟨hx, hne⟩)
    · exact ⟨e, he, by simp⟩
    · have hid : x.id ≠ e.id := fun h => hne (List.inj_on_of_nodup_map hs.entityIds hx he h)
      exact ⟨x, hx, by simp [hid]⟩

theorem row?_addEntity {s : Store} (hs : s.Sound) {row : Int → EntityRow} (ht : (s.addEntity row).2.Sound)
    (k : EntityKey) :
    (s.addEntity row).2.row? k =
      if s.keyOf (row (s.addEntity row).1) = k then some (row (s.addEntity row).1) else s.row? k := by
  have hmem : ∀ x, x ∈ (s.addEntity row).2.entities ↔ x ∈ s.entities ∨ x = row (s.addEntity row).1 := by
    simp [addEntity]
  apply Option.ext
  intro x
  rw [row?_eq_some ht, hmem]
  split
  · rename_i hk
    rw [Option.some.injEq]
    constructor
    · rintro ⟨hx | rfl, hkx⟩
      · exact (keyOf_inj ht ((hmem x).2 (.inl hx)) ((hmem _).2 (.inr rfl)) (hkx.trans hk.symm)).symm
      · rfl
    · rintro rfl
      exact ⟨.inr rfl, hk⟩
  · rename_i hk
    rw [row?_eq_some hs]
    constructor
    · rintro ⟨hx | rfl, hkx⟩
      · exact ⟨hx, hkx⟩
      · exact absurd hkx hk
    · rintro ⟨hx, hkx⟩
      exact ⟨.inl hx, hkx⟩

theorem row?_updateEntity {s : Store} (hs : s.Sound) {e : EntityRow} (he : e ∈ s.entities)
    {change : EntityRow → EntityRow} (ht : (s.updateEntity e.id change).Sound) (hkey : s.keyOf (change e) = s.keyOf e)
    (k : EntityKey) :
    (s.updateEntity e.id change).row? k = if s.keyOf e = k then some (change e) else s.row? k := by
  apply Option.ext
  intro x
  rw [row?_eq_some ht, mem_updateEntity hs he]
  split
  · rename_i hk
    rw [Option.some.injEq]
    constructor
    · rintro ⟨rfl | ⟨hx, hne⟩, hkx⟩
      · rfl
      · exact absurd (keyOf_inj hs hx he (hkx.trans hk.symm)) hne
    · rintro rfl
      exact ⟨.inl rfl, hkey.trans hk⟩
  · rename_i hk
    rw [row?_eq_some hs]
    constructor
    · rintro ⟨rfl | ⟨hx, -⟩, hkx⟩
      · exact absurd (hkey.symm.trans hkx) hk
      · exact ⟨hx, hkx⟩
    · rintro ⟨hx, hkx⟩
      exact ⟨.inr ⟨hx, fun hxe => hk (hxe ▸ hkx)⟩, hkx⟩

/-- Only what a change does to the one row with the id counts. -/
theorem updateEntity_congr {s : Store} (hs : s.Sound) {e : EntityRow} (he : e ∈ s.entities)
    {change change' : EntityRow → EntityRow} (h : change e = change' e) :
    s.updateEntity e.id change = s.updateEntity e.id change' := by
  unfold updateEntity
  congr 1
  apply List.map_congr_left
  intro x hx
  by_cases hid : x.id = e.id
  · obtain rfl := List.inj_on_of_nodup_map hs.entityIds hx he hid
    simp [h]
  · simp [hid]

@[simp] theorem updateEntity_id (s : Store) (i : Int) : s.updateEntity i (fun e => e) = s := by
  simp [updateEntity]

/-- Settling a key keeps the invariant and changes no table but the entities; the key then leads to
the changed or the new row, under the id that is returned, and every other key leads where it led
before. -/
theorem settle_spec {s : Store} (hs : s.Sound) {name : String} {decl : Option Place} (hd : s.Placed decl)
    {change : EntityRow → EntityRow} {row : Int → EntityRow}
    (hchange : ∀ e ∈ s.entities, e.name = name → e.decl = decl → s.Fits e.id name decl (change e))
    (hrow : ∀ id, s.Fits id name decl (row id)) {id : Int} {t : Store} (h : s.settle name decl change row = (id, t)) :
    t.Sound ∧ s.Grows t ∧ (∃ es, t = { s with entities := es }) ∧ t.Names id ⟨name, decl.bind s.location?⟩ ∧
      ∀ k, t.row? k = if k = ⟨name, decl.bind s.location?⟩ then some ((s.row? k).elim (row id) change)
        else s.row? k := by
  unfold settle at h
  rcases hf : s.entityAt? name decl with _ | e <;> rw [hf] at h
  · obtain ⟨rfl, rfl⟩ : (s.addEntity row).1 = id ∧ (s.addEntity row).2 = t := Prod.mk.inj h
    have hr := hrow (s.addEntity row).1
    obtain ⟨ht, hg⟩ := addEntity_spec hs (fun i => (hrow i).id) (fun i => (hrow i).linked)
      (fun i => by rw [(hrow i).name, (hrow i).decl]; exact hf)
    have hkey : s.keyOf (row (s.addEntity row).1) = ⟨name, decl.bind s.location?⟩ := by
      unfold keyOf
      rw [hr.name, hr.decl]
    have hnone : s.row? ⟨name, decl.bind s.location?⟩ = none := by rw [← entityAt?_eq_row? hs hd, hf]
    refine ⟨ht, hg, ⟨_, rfl⟩, ⟨_, List.mem_append_right _ (List.mem_singleton_self _), hr.id, hkey⟩, fun k => ?_⟩
    rw [row?_addEntity hs ht, hkey]
    by_cases hk : k = ⟨name, decl.bind s.location?⟩
    · rw [hk, if_pos rfl, if_pos rfl, hnone]
      rfl
    · rw [if_neg fun h => hk h.symm, if_neg hk]
  · obtain ⟨rfl, rfl⟩ : e.id = id ∧ s.updateEntity e.id change = t := Prod.mk.inj h
    obtain ⟨he, hn, hp⟩ := (entityAt?_eq_some hs.toDistinct).1 hf
    have hc := hchange e he hn hp
    obtain ⟨ht, hg⟩ := updateEntity_spec hs he hc.id (hc.name.trans hn.symm) (hc.decl.trans hp.symm) hc.linked
    have hkey : ∀ x : EntityRow, x.name = name → x.decl = decl → s.keyOf x = ⟨name, decl.bind s.location?⟩ := by
      rintro x rfl rfl
      rfl
    have hsome : s.row? ⟨name, decl.bind s.location?⟩ = some e := by rw [← entityAt?_eq_row? hs hd, hf]
    refine ⟨ht, hg, ⟨_, rfl⟩, ⟨_, (mem_updateEntity hs he).2 (.inl rfl), hc.id, hkey _ hc.name hc.decl⟩, fun k => ?_⟩
    rw [row?_updateEntity hs he ht ((hkey _ hc.name hc.decl).trans (hkey e hn hp).symm), hkey e hn hp]
    by_cases hk : k = ⟨name, decl.bind s.location?⟩
    · rw [hk, if_pos rfl, if_pos rfl, hsome]
      rfl
    · rw [if_neg fun h => hk h.symm, if_neg hk]

/-- Leaving a row that is there as it is, is a way of settling a key. -/
theorem settle_keep (s : Store) (name : String) (decl : Option Place) (row : Int → EntityRow) :
    s.settle name decl (fun e => e) row = match s.entityAt? name decl with
      | some e => (e.id, s)
      | none => s.addEntity row := by
  unfold settle
  simp only [updateEntity_id]

end Store

end CrossIndex
