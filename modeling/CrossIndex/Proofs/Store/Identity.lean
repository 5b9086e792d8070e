/-
The identity of entities and files. With paths stored in normal form, every stored path is a normal
form. While a unit is written, keys and paths are looked up through caches that spellings with the
same components share; at every moment of the write, what a cache or a lookup gives for an occurrence
is the id of the one row with the occurrence's stored key, and the rows of the unit carry these ids.
-/
import CrossIndex.Proofs.Store.Reachable

namespace CrossIndex

namespace Store

/-- An id is that of the one entity row with a key. -/
def Identifies (s : Store) (id : Int) (k : EntityKey) : Prop :=
  ∃ e ∈ s.entities, e.id = id ∧ ∀ e' ∈ s.entities, s.keyOf e' = k ↔ e' = e

/-- An id is that of the one file row with a path. -/
def IdentifiesFile (s : Store) (id : Int) (path : String) : Prop :=
  ∃ f ∈ s.files, f.id = id ∧ ∀ f' ∈ s.files, f'.path = path ↔ f' = f

/-- All stored paths are normal forms. -/
def NormalPaths (s : Store) : Prop :=
  ∀ f ∈ s.files, Path.normalize f.path = f.path

/-! ## Stored paths are normal forms -/

theorem replaceUnit_files (canon : String → String) (s : Store) (u : UnitRecord) :
    (s.replaceUnit canon u).files = (s.drafted canon u).store.files :=
  rfl

theorem writeUnit_normalPaths {canon : String → String} (hc : Path.Normalizing canon) {s t : Store} (hs : s.Sound)
    (hn : s.NormalPaths) {u : UnitRecord} (h : s.writeUnit canon u = .ok t) : t.NormalPaths := by
  unfold writeUnit at h
  split at h
  · rename_i hu
    cases h
    intro f hf
    rw [replaceUnit_files] at hf
    rcases (Writer.drafted_spec hs hu).2.1 f hf with hf | ⟨path, hpath⟩
    · exact hn f hf
    · rw [hpath]
      exact hc path
  · cases h

theorem insertEntity_normalPaths {canon : String → String} (hc : Path.Normalizing canon) {s t : Store}
    (hn : s.NormalPaths) {r : EntityRecord} {e : Entity} (h : s.insertEntity canon r = .ok (e, t)) : t.NormalPaths := by
  have hsettle : ∀ (s : Store) (decl : Option Place) (row : Int → EntityRow),
      (s.settle r.name decl (fun e => e) row).2.files = s.files := by
    intro s decl row
    rw [settle_keep]
    split <;> rfl
  obtain ⟨-, ⟨-, rfl⟩ | ⟨l, -, p, -, rfl⟩⟩ := insertEntity_eq h
  · intro f hf
    exact hn f (by rw [← hsettle s]; exact hf)
  · intro f hf
    have hf' : f ∈ (s.internFile (canon l.file)).2.files := by rw [← hsettle]; exact hf
    rcases mem_internFile_files s _ f hf' with h | h
    · exact hn f h
    · rw [h]
      exact hc l.file

/-- Where paths are stored as normal forms, by whatever functions, all stored paths are normal forms. -/
theorem Met.normalPaths_of {Canonical : (String → String) → Prop}
    (hnormal : ∀ canon, Canonical canon → Path.Normalizing canon) {s : Store} (h : Met Canonical s) :
    s.NormalPaths := by
  induction h with
  | fresh => exact fun f hf => by cases hf
  | write hm hc h hn => exact writeUnit_normalPaths (hnormal _ hc) hm.sound hn h
  | prune unit _ hn => exact hn
  | purge _ hn => exact hn
  | bump _ hn => exact hn
  | mark _ hn => exact hn
  | insert _ hc h hn => exact insertEntity_normalPaths (hnormal _ hc) hn h
  | register kind _ hn =>
    intro f hf
    refine hn f ?_
    unfold registerKind at hf
    split at hf <;> exact hf

theorem Met.normalPaths {s : Store} (h : Met (· = Path.normalize) s) : s.NormalPaths :=
  h.normalPaths_of fun canon (hc : canon = Path.normalize) => hc ▸ Path.normalize_normalizing

/-! ## Ids and rows -/

theorem Names.identifies {s : Store} (hs : s.Sound) {id : Int} {k : EntityKey} (h : s.Names id k) :
    s.Identifies id k := by
  obtain ⟨e, he, hid, rfl⟩ := h
  refine ⟨e, he, hid, fun e' he' => ⟨fun hk => keyOf_inj hs he' he hk, fun h => by rw [h]⟩⟩

theorem identifiesFile_of_mem {s : Store} (hs : s.Sound) {id : Int} {path : String} (h : ⟨id, path⟩ ∈ s.files) :
    s.IdentifiesFile id path :=
  ⟨_, h, rfl, fun f' hf' => ⟨fun hp => List.inj_on_of_nodup_map hs.paths hf' h hp, fun he => by rw [he]⟩⟩

end Store

namespace Writer

variable {canon : String → String} {s : Store} {u : UnitRecord} {w : Writer}

/-- The writers met while a unit is written: some source files have been taken in, then records, keys
and paths in any order and any number. -/
inductive Midway (canon : String → String) (s : Store) (u : UnitRecord) : Writer → Prop
  | sources {done rest : List String} : u.sourceFiles = done ++ rest →
      Midway canon s u (done.foldl (addSource canon) (start s u))
  | entity {w : Writer} {r : EntityRecord} : Midway canon s u w → r ∈ u.entities →
      Midway canon s u (w.putEntity canon r)
  | key {w : Writer} {key : EntityKey} : Midway canon s u w → key ∈ u.mentioned →
      Midway canon s u (w.entityId canon key).2
  | path {w : Writer} {path : String} : Midway canon s u w → Midway canon s u (w.fileId canon path).2
  | reference {w : Writer} {r : ReferenceRecord} : Midway canon s u w → r ∈ u.references →
      Midway canon s u (w.putReference canon r)
  | relation {w : Writer} {r : RelationRecord} : Midway canon s u w → r ∈ u.relations →
      Midway canon s u (w.putRelation canon r)
  | dependency {w : Writer} {path : String} : Midway canon s u w → Midway canon s u (w.putDependency canon path)

/-- What caches and lookups of a writer give is right: the id of the one row with the stored key or the
stored path, so that two cached keys have one id exactly if they are stored as one key. -/
structure Resolves (canon : String → String) (w : Writer) : Prop where
  cachedKey : ∀ key id, w.known? key = some id → w.store.Identifies id (key.stored canon)
  cachedPath : ∀ path id, w.paths.lookup (canon path) = some id → w.store.IdentifiesFile id (canon path)
  key : ∀ key id w', key.check = .ok () → w.entityId canon key = (id, w') →
    w'.store.Identifies id (key.stored canon) ∧ w'.known? key = some id
  path : ∀ path id w', w.fileId canon path = (id, w') →
    w'.store.IdentifiesFile id (canon path) ∧ w'.paths.lookup (canon path) = some id
  equal : ∀ key key' id id', w.known? key = some id → w.known? key' = some id' →
    (id = id' ↔ key.stored canon = key'.stored canon)

/-- The rows that a unit has written carry the cached ids of the keys and paths in its records. -/
structure Carries (canon : String → String) (s : Store) (u : UnitRecord) (w : Writer) : Prop where
  known : ∀ key ∈ u.recorded ++ u.mentioned, (w.known? key).isSome
  references : ∃ rows, w.store.references = (s.references.filter fun r => r.unit != w.unit) ++ rows ∧
    List.Forall₂ (fun row r => w.known? r.entity = some row.entity ∧ row.scope = r.scope.bind w.known? ∧
      w.store.IdentifiesFile row.file (canon r.location.file)) rows u.references
  relations : ∃ rows, w.store.relations = (s.relations.filter fun r => r.unit != w.unit) ++ rows ∧
    List.Forall₂ (fun row r => w.known? r.source = some row.source ∧ w.known? r.target = some row.target)
      rows u.relations

/-! ## A writer resolves keys and paths -/

theorem check_of_mentioned (hu : u.check = .ok ()) {key : EntityKey} (h : key ∈ u.mentioned) : key.check = .ok () := by
  obtain ⟨-, hr, hl⟩ := UnitRecord.check_eq_ok hu
  rcases List.mem_append.1 h with h | h
  · obtain ⟨r, hm, hk⟩ := List.mem_flatMap.1 h
    exact (ReferenceRecord.check_eq_ok (hr r hm)).1 key hk
  · obtain ⟨r, hm, hk⟩ := List.mem_flatMap.1 h
    exact RelationRecord.check_eq_ok (hl r hm) key hk

/-- Every writer met while a unit without defects is written is sound. -/
theorem Midway.sound (hs : s.Sound) (hu : u.check = .ok ()) (h : Midway canon s u w) :
    ∃ files, w.Sound canon files := by
  obtain ⟨he, hr, hl⟩ := UnitRecord.check_eq_ok hu
  induction h with
  | sources => exact ⟨_, (addSources_spec _ (start_sound hs u) rfl rfl).1⟩
  | entity _ hm ih =>
    obtain ⟨files, hw⟩ := ih
    exact ⟨files, (putEntity_spec hw (he _ hm)).1⟩
  | key _ hm ih =>
    obtain ⟨files, hw⟩ := ih
    exact ⟨files, (entityId_spec hw (check_of_mentioned hu hm) rfl).1⟩
  | path _ ih =>
    obtain ⟨files, hw⟩ := ih
    exact ⟨files, (fileId_spec hw rfl).1⟩
  | reference _ hm ih =>
    obtain ⟨files, hw⟩ := ih
    exact ⟨files, (putReference_spec hw (hr _ hm)).1⟩
  | relation _ hm ih =>
    obtain ⟨files, hw⟩ := ih
    exact ⟨files, (putRelation_spec hw (hl _ hm)).1⟩
  | dependency _ ih =>
    obtain ⟨files, hw⟩ := ih
    exact ⟨files, (putDependency_spec hw _).1⟩

theorem Midway.foldl {α : Type} {step : Writer → α → Writer} {l : List α}
    (hstep : ∀ {w : Writer}, ∀ a ∈ l, Midway canon s u w → Midway canon s u (step w a)) :
    ∀ {w : Writer}, Midway canon s u w → Midway canon s u (l.foldl step w) := by
  induction l with
  | nil => exact fun h => h
  | cons a l ih =>
    intro w h
    rw [List.foldl_cons]
    exact ih (fun b hb => hstep b (List.mem_cons_of_mem _ hb)) (hstep a List.mem_cons_self h)

/-- The writer that has taken in the whole unit is one of those met. -/
theorem midway_drafted (canon : String → String) (s : Store) (u : UnitRecord) :
    Midway canon s u (s.drafted canon u) := by
  have hsources : Midway canon s u (u.sourceFiles.foldl (addSource canon) (start s u)) :=
    .sources (List.append_nil _).symm
  have hentities : Midway canon s u (u.entities.foldl (putEntity canon) _) :=
    hsources.foldl fun r hr h => h.entity hr
  have hreferences : Midway canon s u (u.references.foldl (putReference canon) _) :=
    hentities.foldl fun r hr h => h.reference hr
  have hrelations : Midway canon s u (u.relations.foldl (putRelation canon) _) :=
    hreferences.foldl fun r hr h => h.relation hr
  exact hrelations.foldl fun path _ h => h.dependency

theorem lookup_fileId {path : String} {id : Int} {w' : Writer} (h : w.fileId canon path = (id, w')) :
    w'.paths.lookup (canon path) = some id := by
  unfold fileId at h
  simp only at h
  split at h
  · rename_i hl
    obtain ⟨rfl, rfl⟩ := Prod.mk.inj h
    exact hl
  · obtain ⟨rfl, rfl⟩ := Prod.mk.inj h
    simp

/-- A sound writer resolves keys and paths. -/
theorem Sound.resolves {files : List String} (hw : w.Sound canon files) (hc : Path.Uniform canon) :
    w.Resolves canon where
  cachedKey key id h := (hw.names_of_known? (EntityKey.alike_of_uniform hc _) h).identifies hw.store
  cachedPath path id h := by
    obtain ⟨l₁, l₂, hl, -⟩ := List.lookup_eq_some_iff.1 h
    have hm : (canon path, id) ∈ w.paths := by rw [hl]; simp
    exact Store.identifiesFile_of_mem hw.store (hw.paths _ _ hm)
  key key id w' hk h := by
    obtain ⟨hw', -, -, -, hknown, -⟩ := entityId_spec hw hk h
    exact ⟨(hw'.names_of_known? (EntityKey.alike_of_uniform hc _) hknown).identifies hw'.store, hknown⟩
  path path id w' h := by
    obtain ⟨hw', -, hm, -⟩ := fileId_spec hw h
    exact ⟨Store.identifiesFile_of_mem hw'.store (hw'.paths _ _ hm), lookup_fileId h⟩
  equal key key' id id' h h' :=
    Store.Names.id_eq_iff hw.store (hw.names_of_known? (EntityKey.alike_of_uniform hc _) h)
      (hw.names_of_known? (EntityKey.alike_of_uniform hc _) h')

/-- An id that names the stored key of a cached key is the cached id. -/
theorem Sound.known?_eq_some {files : List String} (hw : w.Sound canon files) (hc : Path.Uniform canon)
    {key : EntityKey} (hk : (w.known? key).isSome) {id : Int} (hn : w.store.Names id (key.stored canon)) :
    w.known? key = some id := by
  obtain ⟨id', hid⟩ := Option.isSome_iff_exists.1 hk
  rw [hid, (Store.Names.id_eq_iff hw.store (hw.names_of_known? (EntityKey.alike_of_uniform hc _) hid) hn).2 rfl]

theorem zip_of_map_eq {α β γ : Type} {f : α → γ} {g : β → γ} {l : List α} {l' : List β} (h : l.map f = l'.map g) :
    l.length = l'.length ∧ ∀ {a b}, (a, b) ∈ l.zip l' → f a = g b := by
  have h₂ : List.Forall₂ (fun a b => f a = g b) l l' := by
    rw [← List.forall₂_map_right_iff, ← List.forall₂_map_left_iff, h]
    exact List.forall₂_refl _
  exact List.forall₂_iff_zip.1 h₂

theorem Drafted.carries (hd : Drafted canon s u w) (hc : Path.Uniform canon) : Carries canon s u w where
  known := hd.known
  references := by
    obtain ⟨rows, heq, -, hread⟩ := hd.references
    obtain ⟨hlen, hpair⟩ := zip_of_map_eq hread
    refine ⟨rows, heq, List.forall₂_iff_zip.2 ⟨hlen, fun {row r} hz => ?_⟩⟩
    obtain ⟨hrow, hr⟩ := List.of_mem_zip hz
    obtain ⟨hentity, hfile, hscope⟩ := Store.referenceRecord?_eq_some hd.sound.store (hpair hz)
    have hknown : ∀ key ∈ r.keys, (w.known? key).isSome := fun key hk =>
      hd.known key (List.mem_append_right _ (List.mem_append_left _ (List.mem_flatMap.2 ⟨r, hr, hk⟩)))
    refine ⟨hd.sound.known?_eq_some hc (hknown _ List.mem_cons_self) hentity, ?_,
      Store.identifiesFile_of_mem hd.sound.store hfile⟩
    have hlinked := hd.sound.store.references row (by rw [heq]; exact List.mem_append_right _ hrow)
    -- the scope of a row reads as a key, and only one id names this key
    rcases hi : row.scope with _ | i <;> rw [hi] at hscope
    · rw [Option.map_eq_none_iff.1 hscope.symm]
      rfl
    · obtain ⟨k, hk⟩ := (hlinked.scope i hi).names
      rw [Option.bind_some, (Store.keyAt?_eq_some hd.sound.store).2 hk] at hscope
      obtain ⟨key, hkey, rfl⟩ := Option.map_eq_some_iff.1 hscope.symm
      rw [hkey]
      exact (hd.sound.known?_eq_some hc (hknown key (by simp [ReferenceRecord.keys, hkey])) hk).symm
  relations := by
    obtain ⟨rows, heq, -, hread⟩ := hd.relations
    obtain ⟨hlen, hpair⟩ := zip_of_map_eq hread
    refine ⟨rows, heq, List.forall₂_iff_zip.2 ⟨hlen, fun {row r} hz => ?_⟩⟩
    obtain ⟨-, hr⟩ := List.of_mem_zip hz
    obtain ⟨hsource, htarget⟩ := Store.relationRecord?_eq_some hd.sound.store (hpair hz)
    have hknown : ∀ key ∈ r.keys, (w.known? key).isSome := fun key hk =>
      hd.known key (List.mem_append_right _ (List.mem_append_right _ (List.mem_flatMap.2 ⟨r, hr, hk⟩)))
    exact ⟨hd.sound.known?_eq_some hc (hknown _ (by simp [RelationRecord.keys])) hsource,
      hd.sound.known?_eq_some hc (hknown _ (by simp [RelationRecord.keys])) htarget⟩

end Writer

namespace Store

/-- The identity of entities. In a reachable store no two rows share a name with a declaration place,
a path or an index file, and all paths are normal forms. While a unit without defects is written into
a store that is met, caches and lookups give the id of the one row with the stored key or path at every
moment, and the written rows carry these ids. -/
theorem entity_identity :
    (∀ s, Reachable (· = Path.normalize) s → s.Distinct ∧ s.NormalPaths) ∧
      ∀ s u, Met (· = Path.normalize) s → u.check = .ok () →
        (∀ w, Writer.Midway Path.normalize s u w → w.Resolves Path.normalize) ∧
          Writer.Midway Path.normalize s u (s.drafted Path.normalize u) ∧
          Writer.Carries Path.normalize s u (s.drafted Path.normalize u) := by
  refine ⟨fun s h => ⟨h.sound.toDistinct, h.met.normalPaths⟩, fun s u hs hu => ⟨fun w hw => ?_, ?_, ?_⟩⟩
  · obtain ⟨files, hsound⟩ := hw.sound hs.sound hu
    exact hsound.resolves Path.normalize_uniform
  · exact Writer.midway_drafted _ s u
  · have hdrafted := (Writer.drafted_spec hs.sound hu).2.2 (EntityKey.alike_of_uniform Path.normalize_uniform _)
    exact hdrafted.carries Path.normalize_uniform

/-- A unit that spells the path of its one source file in five ways. -/
def spelledUnit : UnitRecord where
  indexFile := "a.ali"
  stamp := 1
  sourceFiles := ["src/a.ads"]
  entities := [⟨"P", "package", some ⟨"src/./a.ads", 1, 1⟩, {}⟩]
  references := [⟨⟨"P", some ⟨"src//a.ads", 1, 1⟩⟩, ⟨"lib/../src/a.ads", 2, 3⟩, 'r',
    some ⟨"P", some ⟨"./src/b/../a.ads", 1, 1⟩⟩⟩]

theorem spelledUnit_identity :
    (fresh.Distinct ∧ fresh.NormalPaths) ∧ (fresh.drafted Path.normalize spelledUnit).store.counts = ⟨1, 1, 1, 1, 0⟩ ∧
      (fresh.drafted Path.normalize spelledUnit).Resolves Path.normalize ∧
      Writer.Carries Path.normalize fresh spelledUnit (fresh.drafted Path.normalize spelledUnit) := by
  have hcheck : spelledUnit.check = .ok () := by decide +kernel
  obtain ⟨hresolves, hmidway, hcarries⟩ := entity_identity.2 fresh spelledUnit .fresh hcheck
  exact ⟨entity_identity.1 fresh .fresh, by decide +kernel, hresolves _ hmidway, hcarries⟩

end Store

end CrossIndex
