/-
A unit being written. `Writer.Sound` ties the writer to its store: the store is sound, the unit and
the source files are there, a cached path is the text of its file, and a cached id names its key.
Every step of a write keeps this and lets the store grow; the steps that settle an entity also say
where each key leads afterwards (`Settles`).

A cached key is found by any spelling of its path with the same components. That the id is still the
right one needs the key found to be stored as the one looked for (`Spells`), which is so when such
spellings among the keys of the unit are stored alike (`Alike`).
-/
import CrossIndex.Proofs.Path.Normal
import CrossIndex.Proofs.Store.Key

namespace CrossIndex

namespace EntityKey

/-- Whether a stored key is declared in one of some files. -/
def within (files : List String) (k : EntityKey) : Bool :=
  k.decl.any fun l => files.contains l.file

theorem check_eq_ok {k : EntityKey} (h : k.check = .ok ()) :
    k.name ≠ "" ∧ ∀ l, k.decl = some l → 1 ≤ l.line ∧ 1 ≤ l.column := by
  unfold check at h
  split at h
  · cases h
  · rename_i hname
    refine ⟨fun he => hname (by rw [he]; rfl), fun l hl => ?_⟩
    rw [hl] at h
    simp only at h
    split at h
    · rename_i hv
      simp only [Location.isValid, Bool.and_eq_true, decide_eq_true_eq] at hv
      exact hv.1
    · cases h

theorem stored_eq_of_same {canon : String → String} (hc : Path.Uniform canon) {a b : EntityKey}
    (h : a.same b = true) : a.stored canon = b.stored canon := by
  obtain ⟨name, decl⟩ := a
  obtain ⟨name', decl'⟩ := b
  simp only [same, Bool.and_eq_true, beq_iff_eq] at h
  obtain ⟨rfl, h⟩ := h
  rcases decl with _ | ⟨file, line, column⟩ <;> rcases decl' with _ | ⟨file', line', column'⟩
  · rfl
  · cases h
  · cases h
  · simp only [Location.same, Bool.and_eq_true, beq_iff_eq] at h
    obtain ⟨⟨hfile, rfl⟩, rfl⟩ := h
    simp only [stored, Option.map_some, Location.stored, hc _ _ hfile]

/-- Keys that are equal up to spelling are stored alike. -/
def Alike (canon : String → String) (keys : List EntityKey) : Prop :=
  ∀ a ∈ keys, ∀ b ∈ keys, a.same b = true → a.stored canon = b.stored canon

theorem Alike.mono {canon : String → String} {keys keys' : List EntityKey} (h : Alike canon keys)
    (hsub : ∀ k ∈ keys', k ∈ keys) : Alike canon keys' :=
  fun a ha b hb => h a (hsub a ha) b (hsub b hb)

theorem alike_of_uniform {canon : String → String} (hc : Path.Uniform canon) (keys : List EntityKey) :
    Alike canon keys :=
  fun _ _ _ _ => stored_eq_of_same hc

theorem same_refl (k : EntityKey) : k.same k = true := by
  obtain ⟨name, _ | l⟩ := k <;> simp [same, Location.same, Path.same]

end EntityKey

/-- What a record does to a row: it describes the row anew if the unit declares the entity or nothing
was known of it. -/
def EntityRecord.put (r : EntityRecord) (own : Bool) (unit : Int) (e : EntityRow) : EntityRow :=
  if own || e.kind.isEmpty then r.describe (if own then some unit else none) e else e

namespace Writer

/-- A writer that agrees with its store, after the source files with some texts have been taken in. -/
structure Sound (canon : String → String) (files : List String) (w : Writer) : Prop where
  store : w.store.Sound
  unit : w.store.HasUnit w.unit
  sources : ∀ id ∈ w.sources, ∃ path ∈ files, ⟨id, path⟩ ∈ w.store.files
  taken : ∀ path ∈ files, ∃ id ∈ w.sources, ⟨id, path⟩ ∈ w.store.files
  ascending : w.sources.Pairwise (· < ·)
  paths : ∀ path id, (path, id) ∈ w.paths → ⟨id, path⟩ ∈ w.store.files
  keys : ∀ key id, (key, id) ∈ w.keys → w.store.Names id (key.stored canon)
  kept : ∀ id ∈ w.kept, ∃ key, (key, id) ∈ w.keys ∧ (key.stored canon).within files = true
  keeps : ∀ key id, (key, id) ∈ w.keys → (key.stored canon).within files = true → id ∈ w.owned → id ∈ w.kept

/-- How a writer goes on: its store grows by files with stored texts, the unit and what it owned stay,
and nothing is taken out of the caches. -/
structure Grows (canon : String → String) (w w' : Writer) : Prop where
  store : w.store.Grows w'.store
  files : ∀ f ∈ w'.store.files, f ∈ w.store.files ∨ ∃ path, f.path = canon path
  unit : w'.unit = w.unit
  owned : w'.owned = w.owned
  kept : ∀ id ∈ w.kept, id ∈ w'.kept
  paths : ∀ entry ∈ w.paths, entry ∈ w'.paths
  keys : ∀ entry ∈ w.keys, entry ∈ w'.keys

/-- What a writer adds to the tables without keys: some rows at the end of each. -/
structure Adds (w w' : Writer) (references : List ReferenceRow) (relations : List RelationRow)
    (dependencies : List DependencyRow) : Prop where
  units : w'.store.units = w.store.units
  sources : w'.sources = w.sources
  references : w'.store.references = w.store.references ++ references
  relations : w'.store.relations = w.store.relations ++ relations
  dependencies : w'.store.dependencies = w.store.dependencies ++ dependencies

/-- A step that settles a key under an id: the key leads to the row it led to before, or else to a
stub, after a change; other keys lead where they led before. -/
structure Settles (w w' : Writer) (key : EntityKey) (id : Int) (change : EntityRow → EntityRow) : Prop where
  names : w'.store.Names id key
  row : ∃ decl, w'.store.row? key = some (change ((w.store.row? key).getD (Store.stub key.name decl id)))
  other : ∀ k, k ≠ key → w'.store.row? k = w.store.row? k

theorem Grows.refl (canon : String → String) (w : Writer) : w.Grows canon w :=
  ⟨.refl _, fun _ h => .inl h, rfl, rfl, fun _ h => h, fun _ h => h, fun _ h => h⟩

theorem Grows.trans {canon : String → String} {a b c : Writer} (h1 : a.Grows canon b) (h2 : b.Grows canon c) :
    a.Grows canon c := by
  refine ⟨h1.store.trans h2.store, fun f hf => ?_, h2.unit.trans h1.unit, h2.owned.trans h1.owned,
    fun id h => h2.kept id (h1.kept id h), fun x h => h2.paths x (h1.paths x h), fun x h => h2.keys x (h1.keys x h)⟩
  rcases h2.files f hf with h | h
  · exact h1.files f h
  · exact .inr h

theorem Adds.refl (w : Writer) : w.Adds w [] [] [] :=
  ⟨rfl, rfl, (List.append_nil _).symm, (List.append_nil _).symm, (List.append_nil _).symm⟩

theorem Adds.trans {a b c : Writer} {rs rs' : List ReferenceRow} {ls ls' : List RelationRow}
    {ds ds' : List DependencyRow} (h1 : a.Adds b rs ls ds) (h2 : b.Adds c rs' ls' ds') :
    a.Adds c (rs ++ rs') (ls ++ ls') (ds ++ ds') :=
  ⟨h2.units.trans h1.units, h2.sources.trans h1.sources, by rw [h2.references, h1.references, List.append_assoc],
    by rw [h2.relations, h1.relations, List.append_assoc], by rw [h2.dependencies, h1.dependencies, List.append_assoc]⟩

/-- A writer that goes on stays sound if its store does and what is new in the caches is right. -/
theorem Sound.grow {canon : String → String} {files : List String} {w w' : Writer} (hw : w.Sound canon files)
    (hg : w.Grows canon w') (hs : w'.store.Sound) (hsources : w'.sources = w.sources)
    (hpaths : ∀ path id, (path, id) ∈ w'.paths → (path, id) ∈ w.paths ∨ ⟨id, path⟩ ∈ w'.store.files)
    (hkeys : ∀ key id, (key, id) ∈ w'.keys → (key, id) ∈ w.keys ∨ w'.store.Names id (key.stored canon) ∧
      ((key.stored canon).within files = true → id ∈ w.owned → id ∈ w'.kept))
    (hkept : ∀ id ∈ w'.kept, id ∈ w.kept ∨ ∃ key, (key, id) ∈ w'.keys ∧ (key.stored canon).within files = true) :
    w'.Sound canon files := by
  refine ⟨hs, by rw [hg.unit]; exact hg.store.hasUnit hw.unit, fun id hid => ?_, fun path hp => ?_,
    by rw [hsources]; exact hw.ascending, fun path id h => ?_, fun key id h => ?_, fun id h => ?_,
      fun key id h hin ho => ?_⟩
  · obtain ⟨path, hp, hf⟩ := hw.sources id (hsources ▸ hid)
    exact ⟨path, hp, hg.store.files _ hf⟩
  · obtain ⟨id, hid, hf⟩ := hw.taken path hp
    exact ⟨id, hsources ▸ hid, hg.store.files _ hf⟩
  · rcases hpaths path id h with h | h
    · exact hg.store.files _ (hw.paths path id h)
    · exact h
  · rcases hkeys key id h with h | h
    · exact hg.store.names hw.store hs (hw.keys key id h)
    · exact h.1
  · rcases hkept id h with h | h
    · obtain ⟨key, hk, hin⟩ := hw.kept id h
      exact ⟨key, hg.keys _ hk, hin⟩
    · exact h
  · rw [hg.owned] at ho
    rcases hkeys key id h with h | h
    · exact hg.kept _ (hw.keeps key id h hin ho)
    · exact h.2 hin ho

/-! ## Files and places -/

variable {canon : String → String} {files : List String} {w w' : Writer}

/-- The id of a path is that of the file with its stored text. -/
theorem fileId_spec (hw : w.Sound canon files) {path : String} {id : Int} (h : w.fileId canon path = (id, w')) :
    w'.Sound canon files ∧ w.Grows canon w' ∧ (canon path, id) ∈ w'.paths ∧
      ∃ fs ps, w' = { w with store := { w.store with files := fs }, paths := ps } := by
  unfold fileId at h
  simp only at h
  split at h
  · rename_i id' hl
    obtain ⟨rfl, rfl⟩ := Prod.mk.inj h
    obtain ⟨l₁, l₂, hlist, -⟩ := List.lookup_eq_some_iff.1 hl
    exact ⟨hw, .refl canon w, by rw [hlist]; simp, w.store.files, w.paths, rfl⟩
  · obtain ⟨hs, hg, hm⟩ := Store.internFile_spec hw.store (canon path)
    obtain ⟨rfl, rfl⟩ := Prod.mk.inj h
    have hgrows : w.Grows canon { w with
        store := (w.store.internFile (canon path)).2
        paths := (canon path, (w.store.internFile (canon path)).1) :: w.paths } :=
      ⟨hg, fun f hf => (Store.mem_internFile_files w.store _ f hf).imp_right fun h => ⟨path, h⟩, rfl, rfl,
        fun _ h => h, fun _ h => List.mem_cons_of_mem _ h, fun _ h => h⟩
    refine ⟨hw.grow hgrows hs rfl (fun p i hp => ?_) (fun k i hk => .inl hk) (fun i hi => .inl hi), hgrows,
      List.mem_cons_self, ?_⟩
    · rcases List.mem_cons.1 hp with hp | hp
      · obtain ⟨rfl, rfl⟩ := Prod.mk.inj hp
        exact .inr hm
      · exact .inl hp
    · exact ⟨(w.store.internFile (canon path)).2.files, _, by rw [← Store.internFile_eq]⟩

/-- The place of a declaration stands for its location with the path as it is stored. -/
theorem place_spec (hw : w.Sound canon files) {decl : Option Location} {p : Option Place}
    (hv : ∀ l, decl = some l → 1 ≤ l.line ∧ 1 ≤ l.column) (h : w.place canon decl = (p, w')) :
    w'.Sound canon files ∧ w.Grows canon w' ∧ w'.store.Placed p ∧
      p.bind w'.store.location? = decl.map (Location.stored canon) ∧
      (∃ fs ps, w' = { w with store := { w.store with files := fs }, paths := ps }) := by
  unfold place at h
  rcases decl with _ | l
  · obtain ⟨rfl, rfl⟩ := Prod.mk.inj h
    exact ⟨hw, .refl canon w, (fun p hp => by cases hp), rfl, w.store.files, w.paths, rfl⟩
  · simp only at h
    rcases hf : w.fileId canon l.file with ⟨file, w₁⟩
    rw [hf] at h
    obtain ⟨rfl, rfl⟩ := Prod.mk.inj h
    obtain ⟨hw₁, hg, hp, hfr⟩ := fileId_spec hw hf
    have hm := hw₁.paths _ _ hp
    refine ⟨hw₁, hg, fun q hq => ?_, ?_, hfr⟩
    · cases hq
      exact ⟨⟨_, hm, rfl⟩, hv l rfl⟩
    · simp only [Option.bind_some, Option.map_some, Store.location?]
      rw [(Store.file?_eq_some hw₁.store.toDistinct).2 ⟨hm, rfl⟩]
      rfl

/-- Whether a unit declares an entity can be read off the entity's key. -/
theorem declares_eq (hw : w.Sound canon files) {p : Option Place} (hp : w.store.Placed p) (name : String) :
    w.declares p = EntityKey.within files ⟨name, p.bind w.store.location?⟩ := by
  rcases p with _ | p
  · rfl
  · obtain ⟨f, hf, hid, hl⟩ := Store.location?_of_hasFile hw.store (hp p rfl).1
    simp only [declares, EntityKey.within, Option.any_some, Option.bind_some, hl]
    rw [Bool.eq_iff_iff, List.contains_iff_mem, List.contains_iff_mem]
    constructor
    · intro hs
      obtain ⟨path, hpath, hm⟩ := hw.sources _ hs
      have : f = ⟨p.file, path⟩ := List.inj_on_of_nodup_map hw.store.fileIds hf hm hid
      rw [this]
      exact hpath
    · intro hs
      obtain ⟨id, hsrc, hm⟩ := hw.taken _ hs
      have : f = ⟨id, f.path⟩ := List.inj_on_of_nodup_map hw.store.paths hf hm rfl
      have : f.id = id := by rw [this]
      rw [← hid, this]
      exact hsrc

/-! ## Recorded entities -/

theorem put_fits {s : Store} {id : Int} {name : String} {decl : Option Place} {r : EntityRecord} {own : Bool}
    {unit : Int} {e : EntityRow} (he : s.Fits id name decl e) (hunit : s.HasUnit unit)
    (hown : own = true → decl.isSome) : s.Fits id name decl (r.put own unit e) := by
  obtain ⟨hid, hname, hdecl, hl⟩ := he
  unfold EntityRecord.put
  split
  · refine ⟨hid, hname, hdecl, hl.name, hl.decl, fun u hu => ?_⟩
    cases own with
    | true =>
      obtain rfl : unit = u := by simpa [EntityRecord.describe] using hu
      refine ⟨hunit, ?_, by simp [EntityRecord.describe]⟩
      show e.decl.isSome
      rw [hdecl]
      exact hown rfl
    | false =>
      obtain ⟨h1, h2, h3⟩ := hl.owner u (by simpa [EntityRecord.describe] using hu)
      exact ⟨h1, h2, by simp [EntityRecord.describe, h3]⟩
  · exact ⟨hid, hname, hdecl, hl⟩

theorem stub_fits {s : Store} {name : String} {decl : Option Place} (hname : name ≠ "") (hd : s.Placed decl)
    (id : Int) : s.Fits id name decl (Store.stub name decl id) :=
  ⟨rfl, rfl, rfl, hname, hd, fun unit h => by cases h⟩

/-- The row of a new entity is a stub that the record describes. -/
theorem row_eq_put (r : EntityRecord) (decl : Option Place) (own : Bool) (unit id : Int) :
    r.row decl (if own then some unit else none) false id = r.put own unit (Store.stub r.name decl id) := by
  cases own <;> simp [EntityRecord.put, EntityRecord.row, EntityRecord.describe, Store.stub]

theorem declares_isSome {p : Option Place} (h : w.declares p = true) : p.isSome := by
  cases p with
  | none => cases h
  | some p => rfl

theorem declares_place (hw : w.Sound canon files) {key : EntityKey} (hk : key.check = .ok ()) {p : Option Place}
    (hp : w.place canon key.decl = (p, w')) : w'.declares p = (key.stored canon).within files := by
  obtain ⟨hw', -, hplaced, hloc, -⟩ := place_spec hw (EntityKey.check_eq_ok hk).2 hp
  rw [declares_eq hw' hplaced key.name, hloc]
  rfl

/-- A key is settled in the store, and its id is cached and perhaps kept. -/
theorem settleKey_spec (hw : w.Sound canon files) {key : EntityKey} (hk : key.check = .ok ()) {p : Option Place}
    {w₁ : Writer} (hp : w.place canon key.decl = (p, w₁)) {change : EntityRow → EntityRow}
    (hchange : ∀ {id e}, w₁.store.Fits id key.name p e → w₁.store.Fits id key.name p (change e)) {id : Int}
    {store : Store}
    (hs : w₁.store.settle key.name p change (fun id => change (Store.stub key.name p id)) = (id, store)) {keep : Bool}
    (hkeep : keep = true → (key.stored canon).within files = true)
    (hkeeps : (key.stored canon).within files = true → id ∈ w₁.owned → keep = true)
    (hw' : w' = { w₁ with
      store := store
      kept := if keep then IdSet.insert id w₁.kept else w₁.kept
      keys := (key, id) :: w₁.keys }) :
    w'.Sound canon files ∧ w.Grows canon w' ∧ w.Adds w' [] [] [] ∧ w'.keys = (key, id) :: w.keys ∧
      w.Settles w' (key.stored canon) id change := by
  subst hw'
  obtain ⟨hname, hvalid⟩ := EntityKey.check_eq_ok hk
  obtain ⟨hw₁, hg₁, hplaced, hloc, fs, ps, hframe⟩ := place_spec hw hvalid hp
  obtain ⟨hsound, hgrows, ⟨es, hes⟩, hnames, hrow⟩ := Store.settle_spec hw₁.store hplaced
    (fun e he hn hd => hchange ⟨rfl, hn, hd, hw₁.store.entities e he⟩)
    (fun id => hchange (stub_fits hname hplaced id)) hs
  have hkey : (⟨key.name, p.bind w₁.store.location?⟩ : EntityKey) = key.stored canon := by
    rw [hloc]
    rfl
  rw [hkey] at hnames hrow
  have hkept : ∀ x, x ∈ (if keep then IdSet.insert id w₁.kept else w₁.kept) ↔ x ∈ w₁.kept ∨ (keep = true ∧ x = id) := by
    intro x
    cases keep <;> simp [or_comm]
  have hg : w₁.Grows canon { w₁ with
      store := store
      kept := if keep then IdSet.insert id w₁.kept else w₁.kept
      keys := (key, id) :: w₁.keys } :=
    ⟨hgrows, fun f hf => .inl (by rw [hes] at hf; exact hf), rfl, rfl, fun x hx => (hkept x).2 (.inl hx),
      fun _ h => h, fun _ h => List.mem_cons_of_mem _ h⟩
  have hentities : w₁.store.entities = w.store.entities := by rw [hframe]
  have hkeys : w₁.keys = w.keys := by rw [hframe]
  refine ⟨hw₁.grow hg hsound rfl (fun _ _ h => .inl h) (fun key' x h => ?_) (fun x h => ?_), hg₁.trans hg, ?_,
    by rw [hkeys], hnames, ⟨p, ?_⟩, fun k hk => ?_⟩
  -- of the cache and of what is kept only the key just settled is new
  · rcases List.mem_cons.1 h with h | h
    · obtain ⟨rfl, rfl⟩ := Prod.mk.inj h
      exact .inr ⟨hnames, fun hin ho => (hkept x).2 (.inr ⟨hkeeps hin ho, rfl⟩)⟩
    · exact .inl h
  · rcases (hkept x).1 h with h | ⟨hk, rfl⟩
    · exact .inl h
    · exact .inr ⟨key, List.mem_cons_self, hkeep hk⟩
  · rw [hes, hframe]
    exact ⟨rfl, rfl, (List.append_nil _).symm, (List.append_nil _).symm, (List.append_nil _).symm⟩
  · have hold := hg₁.store.row? hw.store hw₁.store hentities (key.stored canon)
    refine (hrow (key.stored canon)).trans ?_
    rw [if_pos rfl, hold]
    cases w.store.row? (key.stored canon) <;> rfl
  · have hold := hg₁.store.row? hw.store hw₁.store hentities k
    refine (hrow k).trans ?_
    rw [if_neg hk, hold]

/-- What happens to the store when a recorded entity is taken in is that its key is settled. -/
theorem putEntity_eq (hw : w.Sound canon files) (r : EntityRecord) (hr : r.key.check = .ok ()) {p : Option Place}
    {w₁ : Writer} (hp : w.place canon r.decl = (p, w₁)) {id : Int} {store : Store}
    (hs : w₁.store.settle r.name p (r.put (w₁.declares p) w₁.unit)
      (fun id => r.put (w₁.declares p) w₁.unit (Store.stub r.name p id)) = (id, store)) :
    w.putEntity canon r = { w₁ with
      store := store
      kept := if w₁.declares p then IdSet.insert id w₁.kept else w₁.kept
      keys := (r.key, id) :: w₁.keys } := by
  obtain ⟨hw₁, -⟩ := place_spec hw (EntityKey.check_eq_ok hr).2 hp
  have hrow : r.row p (if w₁.declares p then some w₁.unit else none) false =
      fun id => r.put (w₁.declares p) w₁.unit (Store.stub r.name p id) :=
    funext (row_eq_put r p (w₁.declares p) w₁.unit)
  unfold putEntity
  rw [hp]
  simp only [hrow]
  unfold Store.settle at hs
  rcases hf : w₁.store.entityAt? r.name p with _ | e <;> rw [hf] at hs <;> simp only at hs ⊢
  · rw [hs]
  · obtain ⟨rfl, rfl⟩ := Prod.mk.inj hs
    have he := ((Store.entityAt?_eq_some hw₁.store.toDistinct).1 hf).1
    congr 1
    -- a description that is neither owned nor missing is left alone, and `put` leaves it alone too
    split
    · rename_i hcond
      exact Store.updateEntity_congr hw₁.store he (by simp only [EntityRecord.put, hcond, if_true])
    · rename_i hcond
      have hput : r.put (w₁.declares p) w₁.unit e = e := by simp [EntityRecord.put, hcond]
      rw [@Store.updateEntity_congr _ hw₁.store e he _ (fun e => e) hput]
      exact (Store.updateEntity_id _ _).symm

/-- Taking in a recorded entity settles its key: the row is put under the record. -/
theorem putEntity_spec (hw : w.Sound canon files) {r : EntityRecord} (hr : r.key.check = .ok ()) :
    (w.putEntity canon r).Sound canon files ∧ w.Grows canon (w.putEntity canon r) ∧
      w.Adds (w.putEntity canon r) [] [] [] ∧
      ∃ id, (w.putEntity canon r).keys = (r.key, id) :: w.keys ∧ w.Settles (w.putEntity canon r) (r.key.stored canon)
        id (r.put ((r.key.stored canon).within files) w.unit) := by
  rcases hp : w.place canon r.decl with ⟨p, w₁⟩
  obtain ⟨hw₁, -, -, -, fs, ps, hframe⟩ := place_spec hw (EntityKey.check_eq_ok hr).2 hp
  have hunit : w₁.unit = w.unit := by rw [hframe]
  have hown : w₁.declares p = (r.key.stored canon).within files := declares_place hw hr hp
  rcases hs : w₁.store.settle r.name p (r.put (w₁.declares p) w₁.unit)
    (fun id => r.put (w₁.declares p) w₁.unit (Store.stub r.name p id)) with ⟨id, store⟩
  obtain ⟨hsound, hgrows, hadds, hkeys, hsettles⟩ := settleKey_spec hw hr hp
    (fun he => put_fits he hw₁.unit declares_isSome) hs (fun h => hown.symm.trans h) (fun h _ => hown.trans h)
    (putEntity_eq hw r hr hp hs)
  rw [hown, hunit] at hsettles
  exact ⟨hsound, hgrows, hadds, id, hkeys, hsettles⟩

/-! ## Mentioned entities -/

/-- The keys met so far. -/
def cached (w : Writer) : List EntityKey :=
  w.keys.map (·.1)

/-- A key is cached, if at all, under a spelling that is stored as it is. -/
def Spells (canon : String → String) (w : Writer) (key : EntityKey) : Prop :=
  ∀ key', w.cached.find? (fun k => k.same key) = some key' → key'.stored canon = key.stored canon

theorem Spells.of_alike {key : EntityKey} (hc : EntityKey.Alike canon (key :: w.cached)) : w.Spells canon key := by
  intro key' h
  have hsame := List.find?_some h
  exact hc key' (List.mem_cons_of_mem _ (List.mem_of_find?_eq_some h)) key List.mem_cons_self hsame

/-- The entry under which a key is found. -/
theorem entry_of_known? {key : EntityKey} {id : Int} (h : w.known? key = some id) :
    ∃ key', (key', id) ∈ w.keys ∧ w.cached.find? (fun k => k.same key) = some key' := by
  unfold known? at h
  obtain ⟨entry, hf, rfl⟩ := Option.map_eq_some_iff.1 h
  refine ⟨entry.1, List.mem_of_find?_eq_some hf, ?_⟩
  unfold cached
  rw [List.find?_map]
  exact congrArg (Option.map _) hf

/-- The id under which a key is cached names it, if the key found there is stored as it is. -/
theorem Sound.names_of_spells (hw : w.Sound canon files) {key : EntityKey} (hc : w.Spells canon key) {id : Int}
    (h : w.known? key = some id) : w.store.Names id (key.stored canon) := by
  obtain ⟨key', hm, hf⟩ := entry_of_known? h
  rw [← hc key' hf]
  exact hw.keys key' id hm

/-- The id under which a key is cached names it, however the key is spelled. -/
theorem Sound.names_of_known? (hw : w.Sound canon files) {key : EntityKey}
    (hc : EntityKey.Alike canon (key :: w.cached))
    {id : Int} (h : w.known? key = some id) : w.store.Names id (key.stored canon) :=
  hw.names_of_spells (.of_alike hc) h

/-- What a search for a key that is not cached does. -/
theorem entityId_eq {key : EntityKey} (hn : w.known? key = none) {p : Option Place} {w₁ : Writer}
    (hp : w.place canon key.decl = (p, w₁)) {id : Int} {store : Store}
    (hs : w₁.store.settle key.name p (fun e => e) (Store.stub key.name p) = (id, store)) :
    w.entityId canon key = (id, { w₁ with
      store := store
      kept := if w₁.declares p && w₁.owned.contains id then IdSet.insert id w₁.kept else w₁.kept
      keys := (key, id) :: w₁.keys }) := by
  rw [Store.settle_keep] at hs
  unfold entityId
  rw [hn, hp]
  simp only
  rcases hf : w₁.store.entityAt? key.name p with _ | e <;> rw [hf] at hs <;> simp only at hs ⊢
  · rw [hs]
  · obtain ⟨rfl, rfl⟩ := Prod.mk.inj hs
    rfl

/-- Looking a key up leaves the row that it leads to as it is, or makes it lead to a stub. -/
theorem entityId_spec (hw : w.Sound canon files) {key : EntityKey} (hk : key.check = .ok ()) {id : Int}
    (h : w.entityId canon key = (id, w')) :
    w'.Sound canon files ∧ w.Grows canon w' ∧ w.Adds w' [] [] [] ∧ w'.store.HasEntity id ∧ w'.known? key = some id ∧
      (∃ new, w'.keys = new ++ w.keys ∧ ∀ entry ∈ new, entry.1 = key) ∧
      (w.Spells canon key → (∃ entry ∈ w'.keys, entry.1.stored canon = key.stored canon) ∧
        w.Settles w' (key.stored canon) id fun e => e) := by
  rcases hn : w.known? key with _ | id'
  · rcases hp : w.place canon key.decl with ⟨p, w₁⟩
    have hown : w₁.declares p = (key.stored canon).within files := declares_place hw hk hp
    rcases hs : w₁.store.settle key.name p (fun e => e) (Store.stub key.name p) with ⟨i, store⟩
    obtain ⟨hid, hw'⟩ := Prod.mk.inj ((entityId_eq hn hp hs).symm.trans h)
    subst hid
    have hkeep : (w₁.declares p && w₁.owned.contains i) = true → (key.stored canon).within files = true := fun h =>
      hown.symm.trans (Bool.and_eq_true_iff.1 h).1
    have hkeeps : (key.stored canon).within files = true → i ∈ w₁.owned →
        (w₁.declares p && w₁.owned.contains i) = true := fun hin ho =>
      Bool.and_eq_true_iff.2 ⟨hown.trans hin, List.contains_iff_mem.2 ho⟩
    obtain ⟨hsound, hgrows, hadds, hkeys, hsettles⟩ :=
      settleKey_spec hw hk hp (fun he => he) hs hkeep hkeeps hw'.symm
    refine ⟨hsound, hgrows, hadds, hsettles.names.hasEntity, ?_, ⟨[(key, i)], hkeys, by simp⟩,
      fun _ => ⟨⟨(key, i), by simp [hkeys], rfl⟩, hsettles⟩⟩
    simp [known?, hkeys, EntityKey.same_refl]
  · unfold entityId at h
    rw [hn] at h
    obtain ⟨rfl, rfl⟩ := Prod.mk.inj h
    obtain ⟨key', hm, hf⟩ := entry_of_known? hn
    refine ⟨hw, .refl canon w, .refl w, (hw.keys key' _ hm).hasEntity, hn, ⟨[], rfl, fun _ h => (by cases h)⟩,
      fun hc => ⟨⟨_, hm, hc key' hf⟩, ?_⟩⟩
    have hnames := hw.names_of_spells hc hn
    obtain ⟨e, hrow, -⟩ := (Store.names_iff_row? hw.store).1 hnames
    exact ⟨hnames, ⟨none, by rw [hrow]; rfl⟩, fun _ _ => rfl⟩

end Writer

end CrossIndex
