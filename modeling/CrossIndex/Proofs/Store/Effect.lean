/-
What writing a unit does to everything else. Files stay and new ones come at the end; no row of another
unit is touched; the entities go that the unit owned and no longer touches as its own, and take along what
other units say of them; every other entity keeps its id, name and declaration place, and is described
anew only by a record of the unit. Main statement: `writeUnit_effect`, which says so of every write into
a reachable store.
-/
import CrossIndex.Proofs.Store.Extent
import CrossIndex.Proofs.Store.Records

namespace CrossIndex

namespace Store

variable {canon : String → String} {s t : Store} {u : UnitRecord} {w : Writer}

/-- The ids of the entities that a write of a unit drops. -/
def dropped (canon : String → String) (s : Store) (u : UnitRecord) : List Int :=
  (s.entities.filter fun e => s.Drops canon u (s.keyOf e)).map EntityRow.id

/-- What writing a unit, whose row has an id afterwards, does to the rows of a store. -/
structure Effect (canon : String → String) (s : Store) (u : UnitRecord) (id : Int) (t : Store) : Prop where
  files : s.files <+: t.files
  unit : t.unit? u.indexFile = some ⟨id, u.indexFile, u.stamp, u.checksum, false⟩
  unitId : ∀ row, s.unit? u.indexFile = some row → row.id = id
  units : (t.units.filter fun r => r.indexFile != u.indexFile) = s.units.filter fun r => r.indexFile != u.indexFile
  deleted : ∀ e ∈ s.entities, ¬ t.HasEntity e.id ↔ s.Drops canon u (s.keyOf e)
  kept : ∀ e ∈ s.entities, ¬ s.Drops canon u (s.keyOf e) →
    ∃ e' ∈ t.entities, e'.id = e.id ∧ e'.name = e.name ∧ e'.decl = e.decl ∧
      (e' ≠ e → u.Records canon (s.keyOf e) ∧ (u.Lists canon (s.keyOf e) ∨ e.kind = ""))
  added : ∀ e ∈ t.entities, ¬ s.HasEntity e.id → u.Touches canon (t.keyOf e) ∧ s.row? (t.keyOf e) = none
  references : (t.references.filter fun r => r.unit != id) =
    ((s.references.filter fun r => r.unit != id).filter fun r => r.entity ∉ s.dropped canon u).map fun r =>
      { r with scope := r.scope.filter fun e => e ∉ s.dropped canon u }
  relations : (t.relations.filter fun r => r.unit != id) =
    (s.relations.filter fun r => r.unit != id).filter fun r =>
      r.source ∉ s.dropped canon u ∧ r.target ∉ s.dropped canon u
  dependencies : (t.dependencies.filter fun d => d.unit != id) = s.dependencies.filter fun d => d.unit != id
  kinds : t.kinds = s.kinds
  generation : t.generation = s.generation

/-! ## The row of the unit -/

theorem filter_map_of_fixed {α : Type} {keep : α → Bool} {change : α → α} {l : List α}
    (hkeep : ∀ a ∈ l, keep (change a) = keep a) (hfix : ∀ a ∈ l, keep a = true → change a = a) :
    (l.map change).filter keep = l.filter keep := by
  have hsame : l.filter (keep ∘ change) = l.filter keep := List.filter_congr hkeep
  rw [List.filter_map, hsame]
  have hmap : ∀ a ∈ l.filter keep, change a = id a := fun a ha =>
    hfix a (List.mem_of_mem_filter ha) (List.mem_filter.1 ha).2
  rw [List.map_congr_left hmap, List.map_id]

/-- Entering a unit leaves the rows of other units in place. -/
theorem enterUnit_others (hs : s.Sound) (u : UnitRecord) :
    ((s.enterUnit u).2.units.filter fun r => r.indexFile != u.indexFile) =
      s.units.filter fun r => r.indexFile != u.indexFile := by
  unfold enterUnit
  rcases hu : s.unit? u.indexFile with _ | old
  · simp
  · obtain ⟨hold, hfile⟩ := (unit?_eq_some hs.toDistinct).1 hu
    refine filter_map_of_fixed (fun r _ => ?_) fun r hr hne => ?_
    · split <;> rfl
    · split
      · rename_i hid
        obtain rfl := List.inj_on_of_nodup_map hs.unitIds hr hold (beq_iff_eq.1 hid)
        simp [hfile] at hne
      · rfl

theorem enterUnit_id {row : UnitRow} (h : s.unit? u.indexFile = some row) : row.id = (s.enterUnit u).1 := by
  unfold enterUnit
  rw [h]

/-! ## What goes -/

theorem deleteEntities_references (s : Store) (gone : Int → Bool) :
    (s.deleteEntities gone).references = (s.references.filter fun r => !gone r.entity).map fun r =>
      { r with scope := r.scope.filter fun e => !gone e } := by
  refine List.map_congr_left fun r _ => ?_
  obtain ⟨entity, file, line, column, kindId, _ | e, unit⟩ := r
  · rfl
  · cases hg : gone e <;> simp [hg, Option.filter]

/-- The end of a write deletes what the write drops. -/
theorem finish_eq (hs : s.Sound) (d : Writer.Drafted canon s u w) :
    w.finish = w.store.deleteEntities fun id => id ∈ s.dropped canon u := by
  unfold Writer.finish
  congr 1
  funext id
  rw [Bool.eq_iff_iff, decide_eq_true_iff]
  have hrow : ∀ e ∈ s.entities, ∃ e', w.store.row? (s.keyOf e) = some e' ∧ e'.id = e.id := fun e he =>
    (names_iff_row? d.sound.store).1 (d.grows.names hs d.sound.store ⟨e, he, rfl, rfl⟩)
  simp only [dropped, List.mem_map, List.mem_filter, decide_eq_true_eq]
  constructor
  · intro hgone
    -- what goes was owned before, so it has a row in the old store
    have howned : id ∈ s.ownedBy w.unit := by
      rw [← d.owned]
      simpa using (Bool.and_eq_true_iff.1 hgone).1
    obtain ⟨e, he, -, rfl⟩ := mem_ownedBy.1 howned
    obtain ⟨e', hr, hid⟩ := hrow e he
    rw [← hid] at hgone
    exact ⟨e, ⟨he, (drafted_gone hs d hr).1 hgone⟩, rfl⟩
  · rintro ⟨e, ⟨he, hdrop⟩, rfl⟩
    obtain ⟨e', hr, hid⟩ := hrow e he
    rw [← hid]
    exact (drafted_gone hs d hr).2 hdrop

theorem mem_dropped (hs : s.Sound) {e : EntityRow} (he : e ∈ s.entities) :
    e.id ∈ s.dropped canon u ↔ s.Drops canon u (s.keyOf e) := by
  simp only [dropped, List.mem_map, List.mem_filter, decide_eq_true_eq]
  constructor
  · rintro ⟨e', ⟨he', hdrop⟩, hid⟩
    rwa [List.inj_on_of_nodup_map hs.entityIds he' he hid] at hdrop
  · exact fun hdrop => ⟨e, ⟨he, hdrop⟩, rfl⟩

/-! ## What stays -/

theorem put_eq_self {r : EntityRecord} {own : Bool} {unit : Int} {e : EntityRow} (hown : own = false)
    (hkind : e.kind ≠ "") : r.put own unit e = e := by
  unfold EntityRecord.put
  simp [hown, hkind]

/-- The records of a unit change a row only if one of them has its key, and the unit lists the
declaration or nothing was known. -/
theorem putAll_changes {files : List String} {unit : Int} {k : EntityKey} {e : EntityRow} {rs : List EntityRecord}
    (h : Writer.putAll canon files unit rs k e ≠ e) :
    k ∈ rs.map (fun r => r.key.stored canon) ∧ (k.within files = true ∨ e.kind = "") := by
  unfold Writer.putAll at h
  induction rs with
  | nil => exact absurd rfl h
  | cons r rs ih =>
    rw [List.foldl_cons] at h
    by_cases hk : r.key.stored canon = k
    · refine ⟨by simp [hk], ?_⟩
      by_contra hno
      obtain ⟨hown, hkind⟩ := not_or.1 hno
      rw [if_pos hk, put_eq_self (Bool.not_eq_true _ ▸ hown) hkind] at h
      exact hno (ih h).2
    · rw [if_neg hk] at h
      exact ⟨List.mem_cons_of_mem _ (ih h).1, (ih h).2⟩

/-- An entity of before has a row in the draft, changed at most by a record of the unit. -/
theorem drafted_row (hs : s.Sound) (d : Writer.Drafted canon s u w) {e : EntityRow} (he : e ∈ s.entities) :
    ∃ e' ∈ w.store.entities, e'.id = e.id ∧ e'.name = e.name ∧ e'.decl = e.decl ∧
      (e' ≠ e → u.Records canon (s.keyOf e) ∧ (u.Lists canon (s.keyOf e) ∨ e.kind = "")) := by
  have hw := d.sound.store
  obtain ⟨e', he', hid, hname, hdecl⟩ := d.grows.entities e he
  refine ⟨e', he', hid, hname, hdecl, fun hne => ?_⟩
  have hkey : w.store.keyOf e' = s.keyOf e := by
    rw [← d.grows.keyOf hs hw he]
    unfold keyOf
    rw [hname, hdecl]
  have hrow : w.store.row? (s.keyOf e) = some e' := (row?_eq_some hw).2 ⟨he', hkey⟩
  have hold : s.row? (s.keyOf e) = some e := (row?_eq_some hs).2 ⟨he, rfl⟩
  by_cases ht : u.Touches canon (s.keyOf e)
  · obtain ⟨decl, id, hput⟩ := d.row _ ht
    rw [hrow, hold, Option.getD_some, Option.some.injEq] at hput
    obtain ⟨hrecord, hcase⟩ := putAll_changes (hput ▸ hne)
    refine ⟨?_, hcase⟩
    unfold UnitRecord.Records UnitRecord.recorded
    rwa [List.map_map]
  · rw [d.other _ ht, hold, Option.some.injEq] at hrow
    exact absurd hrow.symm hne

theorem drafted_added (hs : s.Sound) (d : Writer.Drafted canon s u w) {e : EntityRow} (he : e ∈ w.store.entities)
    (hnew : ¬ s.HasEntity e.id) : u.Touches canon (w.store.keyOf e) ∧ s.row? (w.store.keyOf e) = none := by
  have hw := d.sound.store
  have hrow : w.store.row? (w.store.keyOf e) = some e := (row?_eq_some hw).2 ⟨he, rfl⟩
  have hnone : s.row? (w.store.keyOf e) = none := by
    rw [Option.eq_none_iff_forall_ne_some]
    intro e' he'
    have hn := d.grows.names hs hw ((names_iff_row? hs).2 ⟨e', he', rfl⟩)
    have hid : e'.id = e.id := (hn.id_eq_iff hw ((names_iff_row? hw).2 ⟨e, hrow, rfl⟩)).2 rfl
    exact hnew ⟨e', ((row?_eq_some hs).1 he').1, hid⟩
  refine ⟨?_, hnone⟩
  by_contra ht
  rw [d.other _ ht, hnone] at hrow
  cases hrow

/-! ## Rows of other units -/

theorem filter_append_of_new {α : Type} {unit : α → Int} {id : Int} {l new : List α} (h : ∀ a ∈ new, unit a = id) :
    ((l.filter fun a => unit a != id) ++ new).filter (fun a => unit a != id) = l.filter fun a => unit a != id := by
  have hnew : new.filter (fun a => unit a != id) = [] := by
    rw [List.filter_eq_nil_iff]
    intro a ha
    simp [h a ha]
  rw [List.filter_append, hnew, List.append_nil, List.filter_filter]
  simp

theorem filter_others {α : Type} {unit : α → Int} {id : Int} {l new : List α} {keep : α → Bool}
    (h : ∀ a ∈ new, unit a = id) :
    (((l.filter fun a => unit a != id) ++ new).filter keep).filter (fun a => unit a != id) =
      (l.filter fun a => unit a != id).filter keep := by
  rw [List.filter_comm, filter_append_of_new h]

/-- What a draft comes to when it ends. The unit may be spelled in another way. -/
theorem finish_effect (hs : s.Sound) {v : UnitRecord} (hu : u.check = .ok ())
    (d : Writer.Drafted canon s v (s.drafted canon u)) :
    s.Effect canon v (s.drafted canon u).unit (s.replaceUnit canon u) := by
  have hfinish : s.replaceUnit canon u = _ := finish_eq hs d
  obtain ⟨⟨new, hfiles, -⟩, -, hkinds, hgeneration⟩ := drafted_extent canon s u
  have hunits : (s.replaceUnit canon u).units = (s.enterUnit v).2.units := d.units
  obtain ⟨rs, hrs, hrunit, -⟩ := d.references
  obtain ⟨ls, hls, hlunit, -⟩ := d.relations
  obtain ⟨ds, hds, hdunit, -⟩ := d.dependencies
  have hstays : ∀ {e : EntityRow}, e ∈ (s.replaceUnit canon u).entities ↔
      e ∈ (s.drafted canon u).store.entities ∧ e.id ∉ s.dropped canon v := by
    intro e
    rw [hfinish]
    simp [deleteEntities]
  refine
    { files := ⟨new, hfiles.symm⟩
      unit := ?_
      unitId := fun row h => by rw [d.unit, enterUnit_id h]
      units := by rw [hunits, enterUnit_others hs]
      deleted := fun e he => ?_
      kept := fun e he hdrop => ?_
      added := fun e he hnew => drafted_added hs d (hstays.1 he).1 hnew
      references := ?_
      relations := ?_
      dependencies := ?_
      kinds := hkinds
      generation := hgeneration }
  · rw [unit?_eq_some (replaceUnit_sound hs hu).toDistinct, hunits, d.unit]
    exact ⟨(enterUnit_spec hs v).2.2, rfl⟩
  · rw [hfinish, hasEntity_deleteEntities, ← mem_dropped hs he]
    have hthere := d.grows.hasEntity ⟨e, he, rfl⟩
    simp [hthere]
  · obtain ⟨e', he', hid, hrest⟩ := drafted_row hs d he
    refine ⟨e', hstays.2 ⟨he', ?_⟩, hid, hrest⟩
    rwa [hid, mem_dropped hs he]
  · rw [hfinish, deleteEntities_references, hrs, List.filter_map]
    simp only [Function.comp_def]
    rw [filter_others hrunit]
    simp
  · rw [hfinish]
    show List.filter _ (List.filter _ (s.drafted canon u).store.relations) = _
    rw [hls, filter_others hlunit]
    simp
  · show (s.drafted canon u).store.dependencies.filter _ = _
    rw [hds, filter_append_of_new hdunit]

/-- Writing a unit without defects has the effect that its keys call for, as the writer's cache spells
them, and so as the unit spells them wherever spellings of one path are stored alike. -/
theorem writeUnit_effect {Canonical : (String → String) → Prop} (hs : s.Reachable Canonical) (canon : String → String)
    (hu : u.check = .ok ()) :
    ∃ id t, s.writeUnit canon u = .ok t ∧ s.Effect canon (u.respelled canon) id t ∧
      (u.Spelled canon → s.Effect canon u id t) := by
  have hsound := hs.sound
  refine ⟨(s.drafted canon u).unit, s.replaceUnit canon u, by rw [writeUnit, hu], ?_, fun hc => ?_⟩
  · exact finish_effect hsound hu (Writer.drafted_spec_respelled hsound hu)
  · exact finish_effect hsound hu ((Writer.drafted_of_spelled hsound hu).2.2 hc)

end Store

namespace Sample

/-- A unit that declares two entities. -/
def provider : UnitRecord where
  indexFile := "a.ali"
  stamp := 1
  sourceFiles := ["a.ads"]
  entities := [⟨"Count", "object", some ⟨"a.ads", 1, 3⟩, {}⟩, ⟨"Total", "object", some ⟨"a.ads", 2, 3⟩, {}⟩]

/-- A unit that refers to both, to the second one within the first. -/
def client : UnitRecord where
  indexFile := "b.ali"
  stamp := 1
  sourceFiles := ["b.ads"]
  references := [
    ⟨⟨"Count", some ⟨"a.ads", 1, 3⟩⟩, ⟨"b.ads", 2, 5⟩, 'r', none⟩,
    ⟨⟨"Total", some ⟨"a.ads", 2, 3⟩⟩, ⟨"b.ads", 3, 5⟩, 'r', some ⟨"Count", some ⟨"a.ads", 1, 3⟩⟩⟩]

/-- The declaring unit without its first entity. -/
def shrunk : UnitRecord :=
  { provider with stamp := 2, entities := provider.entities.drop 1 }

/-- The store that holds both units. -/
def paired : Store :=
  (Store.fresh.update Path.normalize {} (MemorySource.ofUnits [provider, client]).toSource false none).store

/-- Paths are stored by what they name, with a link in place of a source file. The link leads to a file,
so its name with a slash at the end names nothing. -/
def linked (path : String) : String :=
  if path = "a.ads" then "real.ads" else Path.normalize path

/-- The unit of the store `owned`, which now spells its source file with a slash in all places but one. -/
def slashed : UnitRecord where
  indexFile := "a.ali"
  stamp := 2
  sourceFiles := ["a.ads/"]
  entities := owning.entities
  references := [⟨⟨"Count", some ⟨"a.ads/", 1, 3⟩⟩, ⟨"a.ads/", 2, 5⟩, 'r', none⟩]

end Sample

open Sample in
/-- An entity that goes takes along the reference of another unit, and its scope elsewhere. -/
theorem Store.shrunk_effect : ∃ id t, paired.writeUnit Path.normalize shrunk = .ok t ∧
    paired.Effect Path.normalize shrunk id t ∧ paired.dropped Path.normalize shrunk = [1] ∧
    (t.references.filter fun r => r.unit != id) = [⟨2, 2, 3, 5, 'r', none, 2⟩] := by
  have hreachable : paired.Reachable (· = Path.normalize) := .update .fresh rfl fun _ h => by cases h
  have hspelled : shrunk.Spelled Path.normalize := .of_alike (EntityKey.alike_of_uniform Path.normalize_uniform _)
  obtain ⟨id, t, ht, -, h⟩ := writeUnit_effect hreachable Path.normalize (u := shrunk) (by decide +kernel)
  have heffect := h hspelled
  obtain rfl : 1 = id := heffect.unitId ⟨1, "a.ali", 1, none, false⟩ (by decide +kernel)
  refine ⟨1, t, ht, heffect, by decide +kernel, ?_⟩
  rw [heffect.references]
  decide +kernel

-- The cache finds the record under the other spelling, so the entity that the unit refers to, and
-- whose file it lists, is not kept.
open Sample in
example : slashed.check = .ok () ∧ owned.keyAt? 1 = some ⟨"Count", some ⟨"a.ads", 1, 3⟩⟩ ∧
    ⟨"Count", some ⟨"a.ads", 1, 3⟩⟩ ∈ slashed.mentioned.map (EntityKey.stored linked) ∧
    "a.ads" ∈ slashed.sourceFiles.map linked ∧ (owned.replaceUnit linked slashed).keyAt? 1 = none := by
  decide +kernel

end CrossIndex
