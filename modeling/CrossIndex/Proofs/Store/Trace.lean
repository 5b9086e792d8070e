/-
What a write looks up. A writer asks for the ids of paths and meets keys; a path text is asked for
once, and a mentioned key is found under any spelling of its path with the same components that has
been met before. Both depend on the unit alone (`UnitRecord.trace`), not on the store. So a unit can
be respelled to say what the writer takes it to say, and writing either comes to the same. Main
statement: the spec of a write holds of every respelled unit without defects.
-/
import CrossIndex.Proofs.Store.View

namespace CrossIndex

namespace EntityKey

/-- What the spelling of a key does not change. -/
def shape (k : EntityKey) : String × Option (List Path.Component × Int × Int) :=
  (k.name, k.decl.map fun l => (Path.components l.file, l.line, l.column))

theorem same_iff {a b : EntityKey} : a.same b = true ↔ a.shape = b.shape := by
  obtain ⟨name, decl⟩ := a
  obtain ⟨name', decl'⟩ := b
  cases decl <;> cases decl' <;> simp [same, shape, Location.same, Path.same, and_assoc]

/-- Two spellings of a key are found alike. -/
theorem same_congr {a b : EntityKey} (h : a.same b = true) : (fun k : EntityKey => k.same a) = fun k => k.same b := by
  funext k
  rw [Bool.eq_iff_iff, same_iff, same_iff, same_iff.1 h]

/-- The spelling under which a key is found among some keys. -/
def spelled (met : List EntityKey) (k : EntityKey) : EntityKey :=
  (met.find? fun c => c.same k).getD k

theorem spelled_same (met : List EntityKey) (k : EntityKey) : (k.spelled met).same k = true := by
  unfold spelled
  cases h : met.find? fun c => c.same k with
  | none => exact same_refl k
  | some c => simpa using List.find?_some h

end EntityKey

/-! ## Traces -/

/-- The path texts that have been asked for and the keys that have been met, the latest first. -/
structure Trace where
  paths : List String := []
  keys : List EntityKey := []

namespace Trace

variable (canon : String → String)

def ask (t : Trace) (path : String) : Trace :=
  if t.paths.contains (canon path) then t else { t with paths := canon path :: t.paths }

def askPlace (t : Trace) (decl : Option Location) : Trace :=
  decl.elim t fun l => t.ask canon l.file

/-- A recorded entity is always met anew. -/
def record (t : Trace) (r : EntityRecord) : Trace :=
  { t.askPlace canon r.decl with keys := r.key :: t.keys }

/-- A mentioned key is met anew if no spelling of it has been met. -/
def meet (t : Trace) (key : EntityKey) : Trace :=
  match t.keys.find? fun c => c.same key with
  | some _ => t
  | none => { t.askPlace canon key.decl with keys := key :: t.keys }

def reference (t : Trace) (r : ReferenceRecord) : Trace :=
  (r.keys.foldl (meet canon) t).ask canon r.location.file

def relation (t : Trace) (r : RelationRecord) : Trace :=
  r.keys.foldl (meet canon) t

end Trace

/-- What writing a unit looks up. -/
def UnitRecord.trace (canon : String → String) (u : UnitRecord) : Trace :=
  let t := u.sourceFiles.foldl (Trace.ask canon) {}
  let t := u.entities.foldl (Trace.record canon) t
  let t := u.references.foldl (Trace.reference canon) t
  let t := u.relations.foldl (Trace.relation canon) t
  u.dependencies.foldl (Trace.ask canon) t

namespace Writer

variable {canon : String → String}

/-- What a writer has looked up. -/
def trace (w : Writer) : Trace :=
  ⟨w.paths.map (·.1), w.cached⟩

theorem lookup_isSome (paths : List (String × Int)) (text : String) :
    (paths.lookup text).isSome = (paths.map (·.1)).contains text := by
  induction paths with
  | nil => rfl
  | cons entry paths ih =>
    obtain ⟨path, id⟩ := entry
    rw [List.lookup_cons, List.map_cons, List.contains_cons]
    cases h : text == path with
    | true => rfl
    | false => simpa using ih

theorem known?_isSome (w : Writer) (key : EntityKey) :
    (w.known? key).isSome = (w.trace.keys.find? fun c => c.same key).isSome := by
  unfold known? trace cached
  rw [List.find?_map, Option.isSome_map, Option.isSome_map]
  rfl

theorem trace_fileId (w : Writer) (path : String) : (w.fileId canon path).2.trace = w.trace.ask canon path := by
  have hsome : (w.paths.lookup (canon path)).isSome = w.trace.paths.contains (canon path) := lookup_isSome _ _
  unfold fileId Trace.ask
  rw [← hsome]
  cases h : w.paths.lookup (canon path) with
  | some id => simp [h]
  | none => simp [h, trace, cached]

theorem trace_place (w : Writer) (decl : Option Location) :
    (w.place canon decl).2.trace = w.trace.askPlace canon decl := by
  cases decl with
  | none => rfl
  | some l => exact trace_fileId w l.file

theorem trace_addSource (w : Writer) (path : String) : (w.addSource canon path).trace = w.trace.ask canon path :=
  trace_fileId w path

theorem askPlace_keys (t : Trace) (decl : Option Location) : (t.askPlace canon decl).keys = t.keys := by
  cases decl with
  | none => rfl
  | some l =>
    show (t.ask canon l.file).keys = t.keys
    unfold Trace.ask
    split <;> rfl

theorem trace_putEntity (w : Writer) (r : EntityRecord) : (w.putEntity canon r).trace = w.trace.record canon r := by
  have hplace : (w.place canon r.decl).2.trace = w.trace.askPlace canon r.decl := trace_place w r.decl
  have hcached : (w.place canon r.decl).2.cached = w.cached :=
    (congrArg Trace.keys hplace).trans (askPlace_keys _ _)
  show Trace.mk ((w.place canon r.decl).2.paths.map (·.1)) (r.key :: (w.place canon r.decl).2.cached) = _
  unfold Trace.record
  rw [← hplace, hcached]
  rfl

theorem trace_entityId (w : Writer) (key : EntityKey) : (w.entityId canon key).2.trace = w.trace.meet canon key := by
  have hsome : (w.known? key).isSome = (w.trace.keys.find? fun c => c.same key).isSome := known?_isSome w key
  have hplace : (w.place canon key.decl).2.trace = w.trace.askPlace canon key.decl := trace_place w key.decl
  have hcached : (w.place canon key.decl).2.cached = w.cached :=
    (congrArg Trace.keys hplace).trans (askPlace_keys _ _)
  unfold entityId Trace.meet
  cases hk : w.known? key with
  | some id =>
    obtain ⟨c, hc⟩ := Option.isSome_iff_exists.1 (hsome.symm.trans (by rw [hk]; rfl))
    simp [hc]
  | none =>
    have hc : (w.trace.keys.find? fun c => c.same key) = none := by
      rw [← Option.not_isSome_iff_eq_none, ← hsome, hk]
      simp
    simp only [hc, ← hplace]
    show Trace.mk _ (key :: (w.place canon key.decl).2.cached) = _
    rw [hcached]
    rfl

theorem trace_scopeId (w : Writer) (scope : Option EntityKey) :
    (w.scopeId canon scope).2.trace = scope.toList.foldl (Trace.meet canon) w.trace := by
  cases scope with
  | none => rfl
  | some key => exact trace_entityId w key

theorem trace_putReference (w : Writer) (r : ReferenceRecord) :
    (w.putReference canon r).trace = w.trace.reference canon r := by
  show (((w.entityId canon r.entity).2.scopeId canon r.scope).2.fileId canon r.location.file).2.trace = _
  rw [trace_fileId, trace_scopeId, trace_entityId]
  rfl

theorem trace_putRelation (w : Writer) (r : RelationRecord) :
    (w.putRelation canon r).trace = w.trace.relation canon r := by
  show ((w.entityId canon r.source).2.entityId canon r.target).2.trace = _
  rw [trace_entityId, trace_entityId]
  rfl

theorem trace_putDependency (w : Writer) (path : String) :
    (w.putDependency canon path).trace = w.trace.ask canon path :=
  trace_fileId w path

/-- A write looks up what the unit says, whatever the store. -/
theorem trace_drafted (canon : String → String) (s : Store) (u : UnitRecord) :
    (s.drafted canon u).trace = u.trace canon := by
  unfold Store.drafted UnitRecord.trace
  rw [← List.foldl_hom trace (fun w path => (trace_putDependency w path).symm),
    ← List.foldl_hom trace (fun w r => (trace_putRelation w r).symm),
    ← List.foldl_hom trace (fun w r => (trace_putReference w r).symm),
    ← List.foldl_hom trace (fun w r => (trace_putEntity w r).symm),
    ← List.foldl_hom trace (fun w path => (trace_addSource w path).symm)]
  rfl

end Writer

/-! ## What has been met is found again -/

namespace Trace

variable {canon : String → String}

/-- A key is found, under whatever spelling. -/
def Finds (t : Trace) (key : EntityKey) : Prop :=
  (t.keys.find? fun c => c.same key).isSome

/-- Keys that have been met are found later as they were. -/
def Keeps (t t' : Trace) : Prop :=
  ∀ key found, (t.keys.find? fun c => c.same key) = some found → (t'.keys.find? fun c => c.same key) = some found

theorem Keeps.refl (t : Trace) : t.Keeps t :=
  fun _ _ h => h

theorem Keeps.trans {a b c : Trace} (h : a.Keeps b) (h' : b.Keeps c) : a.Keeps c :=
  fun key found hf => h' key found (h key found hf)

theorem Keeps.of_eq {t t' : Trace} (h : t'.keys = t.keys) : t.Keeps t' := by
  intro key found hf
  rw [h]
  exact hf

theorem Finds.keeps {t t' : Trace} {key : EntityKey} (h : t.Finds key) (hk : t.Keeps t') : t'.Finds key := by
  obtain ⟨found, hf⟩ := Option.isSome_iff_exists.1 h
  unfold Finds
  rw [hk key found hf]
  rfl

theorem ask_keeps (t : Trace) (path : String) : t.Keeps (t.ask canon path) := by
  apply Keeps.of_eq
  unfold ask
  split <;> rfl

/-- A new key hides none of those that have been met: it is no spelling of any of them. -/
theorem meet_keeps (t : Trace) (key : EntityKey) : t.Keeps (t.meet canon key) := by
  unfold meet
  cases hf : t.keys.find? fun c => c.same key with
  | some c => exact .refl t
  | none =>
    intro key' found hf'
    have hne : key.same key' = false := by
      rw [← Bool.not_eq_true]
      intro hsame
      rw [EntityKey.same_congr hsame] at hf
      rw [hf] at hf'
      cases hf'
    show (key :: t.keys).find? _ = _
    rw [List.find?_cons_of_neg (by simp [hne]), hf']

theorem meet_finds (t : Trace) (key : EntityKey) : (t.meet canon key).Finds key := by
  unfold meet Finds
  cases hf : t.keys.find? fun c => c.same key with
  | some c => simp [hf]
  | none => simp [EntityKey.same_refl]

theorem foldl_keeps {α : Type} {step : Trace → α → Trace} (h : ∀ (t : Trace) a, t.Keeps (step t a)) :
    ∀ (l : List α) (t : Trace), t.Keeps (l.foldl step t)
  | [], t => .refl t
  | a :: l, t => (h t a).trans (foldl_keeps h l (step t a))

theorem foldl_finds {α : Type} {step : Trace → α → Trace} (h : ∀ (t : Trace) a, t.Keeps (step t a))
    {key : EntityKey} {a : α}
    (hf : ∀ t : Trace, (step t a).Finds key) : ∀ {l : List α} (t : Trace), a ∈ l → (l.foldl step t).Finds key
  | b :: l, t, ha => by
    rcases List.mem_cons.1 ha with rfl | ha
    · exact (hf t).keeps (foldl_keeps h l _)
    · exact foldl_finds h hf (step t b) ha

theorem reference_keeps (t : Trace) (r : ReferenceRecord) : t.Keeps (t.reference canon r) :=
  (foldl_keeps meet_keeps r.keys t).trans (ask_keeps _ _)

theorem relation_keeps (t : Trace) (r : RelationRecord) : t.Keeps (t.relation canon r) :=
  foldl_keeps meet_keeps r.keys t

theorem reference_finds {r : ReferenceRecord} {key : EntityKey} (h : key ∈ r.keys) (t : Trace) :
    (t.reference canon r).Finds key :=
  (foldl_finds meet_keeps (fun t => meet_finds t key) t h).keeps (ask_keeps _ _)

theorem relation_finds {r : RelationRecord} {key : EntityKey} (h : key ∈ r.keys) (t : Trace) :
    (t.relation canon r).Finds key :=
  foldl_finds meet_keeps (fun t => meet_finds t key) t h

theorem records_keys : ∀ (rs : List EntityRecord) (t : Trace),
    (rs.foldl (record canon) t).keys = (rs.map EntityRecord.key).reverse ++ t.keys
  | [], t => rfl
  | r :: rs, t => by
    rw [List.foldl_cons, records_keys rs]
    simp [record]

end Trace

/-! ## Respelled units -/

/-- A reference with its keys in the spellings under which they are found. -/
def ReferenceRecord.respelled (met : List EntityKey) (r : ReferenceRecord) : ReferenceRecord :=
  { r with entity := r.entity.spelled met, scope := r.scope.map (EntityKey.spelled met) }

theorem ReferenceRecord.keys_respelled (met : List EntityKey) (r : ReferenceRecord) :
    (r.respelled met).keys = r.keys.map (EntityKey.spelled met) := by
  cases hs : r.scope <;> simp [respelled, keys, hs]

/-- A relation with its keys in the spellings under which they are found. -/
def RelationRecord.respelled (met : List EntityKey) (r : RelationRecord) : RelationRecord :=
  { r with source := r.source.spelled met, target := r.target.spelled met }

/-- A unit with its mentioned keys in the spellings under which a writer finds them. -/
def UnitRecord.respelled (canon : String → String) (u : UnitRecord) : UnitRecord :=
  { u with
    references := u.references.map (ReferenceRecord.respelled (u.trace canon).keys)
    relations := u.relations.map (RelationRecord.respelled (u.trace canon).keys) }

namespace Writer

variable {canon : String → String} {t : Trace}

/-- A writer takes no notice of the spelling of a key that it will find later under another one. -/
theorem entityId_spelled {w : Writer} {key : EntityKey} (h : (w.trace.meet canon key).Keeps t) :
    w.entityId canon (key.spelled t.keys) = w.entityId canon key := by
  -- a key that is cached is found by either spelling; one that is not is cached under its own
  cases hf : w.trace.keys.find? fun c => c.same key with
  | some c =>
    have hknown : w.known? (key.spelled t.keys) = w.known? key := by
      unfold known?
      congr 2
      funext entry
      exact congrFun (EntityKey.same_congr (EntityKey.spelled_same t.keys key)) entry.1
    obtain ⟨id, hid⟩ := Option.isSome_iff_exists.1 ((known?_isSome w key).trans (by rw [hf]; rfl))
    unfold entityId
    rw [hknown, hid]
  | none =>
    have hmeet : (w.trace.meet canon key).keys = key :: w.trace.keys := by simp [Trace.meet, hf]
    have hkey : (t.keys.find? fun c => c.same key) = some key := by
      apply h
      simp [hmeet, EntityKey.same_refl]
    rw [EntityKey.spelled, hkey, Option.getD_some]

theorem scopeId_spelled {w : Writer} {scope : Option EntityKey}
    (h : (scope.toList.foldl (Trace.meet canon) w.trace).Keeps t) :
    w.scopeId canon (scope.map (EntityKey.spelled t.keys)) = w.scopeId canon scope := by
  cases scope with
  | none => rfl
  | some key =>
    have hid : w.entityId canon (key.spelled t.keys) = w.entityId canon key := entityId_spelled h
    unfold scopeId
    simp only [Option.map_some, hid]

theorem putReference_respelled {w : Writer} {r : ReferenceRecord} (h : (w.trace.reference canon r).Keeps t) :
    w.putReference canon (r.respelled t.keys) = w.putReference canon r := by
  have hkeys : (r.keys.foldl (Trace.meet canon) w.trace).Keeps t := (Trace.ask_keeps _ _).trans h
  have hentity : w.entityId canon (r.respelled t.keys).entity = w.entityId canon r.entity :=
    entityId_spelled ((Trace.foldl_keeps Trace.meet_keeps r.scope.toList _).trans hkeys)
  have hscope : (w.entityId canon r.entity).2.scopeId canon (r.respelled t.keys).scope =
      (w.entityId canon r.entity).2.scopeId canon r.scope := by
    apply scopeId_spelled
    rw [trace_entityId]
    exact hkeys
  unfold putReference
  simp only [hentity, hscope]
  rfl

theorem putRelation_respelled {w : Writer} {r : RelationRecord} (h : (w.trace.relation canon r).Keeps t) :
    w.putRelation canon (r.respelled t.keys) = w.putRelation canon r := by
  have hsource : w.entityId canon (r.respelled t.keys).source = w.entityId canon r.source :=
    entityId_spelled ((Trace.meet_keeps _ r.target).trans h)
  have htarget : (w.entityId canon r.source).2.entityId canon (r.respelled t.keys).target =
      (w.entityId canon r.source).2.entityId canon r.target := by
    apply entityId_spelled
    rw [trace_entityId]
    exact h
  unfold putRelation
  simp only [hsource, htarget]
  rfl

theorem putReferences_respelled : ∀ {rs : List ReferenceRecord} {w : Writer},
    (rs.foldl (Trace.reference canon) w.trace).Keeps t →
    (rs.map (ReferenceRecord.respelled t.keys)).foldl (putReference canon) w = rs.foldl (putReference canon) w
  | [], _, _ => rfl
  | r :: rs, w, h => by
    have hfirst : w.putReference canon (r.respelled t.keys) = w.putReference canon r :=
      putReference_respelled ((Trace.foldl_keeps Trace.reference_keeps rs _).trans h)
    rw [List.map_cons, List.foldl_cons, List.foldl_cons, hfirst]
    apply putReferences_respelled
    rw [trace_putReference]
    exact h

theorem putRelations_respelled : ∀ {rs : List RelationRecord} {w : Writer},
    (rs.foldl (Trace.relation canon) w.trace).Keeps t →
    (rs.map (RelationRecord.respelled t.keys)).foldl (putRelation canon) w = rs.foldl (putRelation canon) w
  | [], _, _ => rfl
  | r :: rs, w, h => by
    have hfirst : w.putRelation canon (r.respelled t.keys) = w.putRelation canon r :=
      putRelation_respelled ((Trace.foldl_keeps Trace.relation_keeps rs _).trans h)
    rw [List.map_cons, List.foldl_cons, List.foldl_cons, hfirst]
    apply putRelations_respelled
    rw [trace_putRelation]
    exact h

/-- A writer takes a unit to say what it says respelled. -/
theorem drafted_respelled (canon : String → String) (s : Store) (u : UnitRecord) :
    s.drafted canon (u.respelled canon) = s.drafted canon u := by
  let w₂ := u.entities.foldl (putEntity canon) (u.sourceFiles.foldl (addSource canon) (start s u))
  let w₃ := u.references.foldl (putReference canon) w₂
  let w₄ := u.relations.foldl (putRelation canon) w₃
  have hdone : w₄.trace.Keeps (u.trace canon) := by
    rw [← trace_drafted canon s u]
    show w₄.trace.Keeps (u.dependencies.foldl (putDependency canon) w₄).trace
    rw [← List.foldl_hom trace (fun w path => (trace_putDependency w path).symm)]
    exact Trace.foldl_keeps Trace.ask_keeps _ _
  have hrelations : (u.relations.foldl (Trace.relation canon) w₃.trace).Keeps (u.trace canon) := by
    rw [List.foldl_hom trace fun w r => (trace_putRelation w r).symm]
    exact hdone
  have hreferences : (u.references.foldl (Trace.reference canon) w₂.trace).Keeps (u.trace canon) := by
    rw [List.foldl_hom trace fun w r => (trace_putReference w r).symm]
    exact (Trace.foldl_keeps Trace.relation_keeps u.relations _).trans hrelations
  show u.dependencies.foldl (putDependency canon) ((u.respelled canon).relations.foldl (putRelation canon)
    ((u.respelled canon).references.foldl (putReference canon) w₂)) = _
  unfold UnitRecord.respelled
  simp only
  rw [putReferences_respelled hreferences, putRelations_respelled hrelations]
  rfl

end Writer

namespace UnitRecord

variable {canon : String → String} {u : UnitRecord}

theorem trace_finds {key : EntityKey} (h : key ∈ u.mentioned) : (u.trace canon).Finds key := by
  rcases List.mem_append.1 h with h | h
  · obtain ⟨r, hr, hk⟩ := List.mem_flatMap.1 h
    exact ((Trace.foldl_finds Trace.reference_keeps (Trace.reference_finds hk) _ hr).keeps
      (Trace.foldl_keeps Trace.relation_keeps _ _)).keeps (Trace.foldl_keeps Trace.ask_keeps _ _)
  · obtain ⟨r, hr, hk⟩ := List.mem_flatMap.1 h
    exact (Trace.foldl_finds Trace.relation_keeps (Trace.relation_finds hk) _ hr).keeps
      (Trace.foldl_keeps Trace.ask_keeps _ _)

/-- Of the recorded keys with the same path the latest is found. -/
theorem trace_keeps_recorded (canon : String → String) (u : UnitRecord) :
    Trace.Keeps ⟨[], u.recorded.reverse⟩ (u.trace canon) := by
  have hsources : ∀ (paths : List String) (t : Trace), (paths.foldl (Trace.ask canon) t).keys = t.keys := by
    intro paths
    induction paths with
    | nil => exact fun _ => rfl
    | cons path paths ih =>
      intro t
      rw [List.foldl_cons, ih]
      unfold Trace.ask
      split <;> rfl
  have hrecorded : (u.entities.foldl (Trace.record canon) (u.sourceFiles.foldl (Trace.ask canon) {})).keys =
      u.recorded.reverse := by
    rw [Trace.records_keys, hsources, List.append_nil]
    rfl
  refine (Trace.Keeps.of_eq hrecorded).trans ?_
  exact ((Trace.foldl_keeps Trace.reference_keeps _ _).trans (Trace.foldl_keeps Trace.relation_keeps _ _)).trans
    (Trace.foldl_keeps Trace.ask_keeps _ _)

theorem mem_respelled_mentioned {key : EntityKey} :
    key ∈ (u.respelled canon).mentioned ↔ ∃ m ∈ u.mentioned, m.spelled (u.trace canon).keys = key := by
  have hmentioned : (u.respelled canon).mentioned = u.mentioned.map (EntityKey.spelled (u.trace canon).keys) := by
    unfold mentioned respelled
    rw [List.map_append, List.map_flatMap, List.map_flatMap, List.flatMap_map, List.flatMap_map]
    simp only [ReferenceRecord.keys_respelled]
    rfl
  rw [hmentioned, List.mem_map]

/-- A spelling that is found is found as itself. -/
theorem find?_spelled (canon : String → String) {m : EntityKey} (h : m ∈ u.mentioned) :
    ((u.trace canon).keys.find? fun c => c.same (m.spelled (u.trace canon).keys)) =
      some (m.spelled (u.trace canon).keys) := by
  obtain ⟨found, hf⟩ := Option.isSome_iff_exists.1 (trace_finds h)
  rw [EntityKey.same_congr (EntityKey.spelled_same _ _), hf, EntityKey.spelled, hf, Option.getD_some]

/-- The keys of a respelled unit are stored as the cache finds them. -/
theorem respelled_spelled (canon : String → String) (u : UnitRecord) : (u.respelled canon).Spelled canon := by
  refine ⟨fun key hk key' hf => ?_, fun a ha b hb hsame => ?_⟩
  · obtain ⟨m, hm, rfl⟩ := mem_respelled_mentioned.1 hk
    have hfound := trace_keeps_recorded canon u _ key' hf
    rw [find?_spelled canon hm, Option.some.injEq] at hfound
    rw [hfound]
  · obtain ⟨m, hm, rfl⟩ := mem_respelled_mentioned.1 ha
    obtain ⟨m', hm', rfl⟩ := mem_respelled_mentioned.1 hb
    have hfound := find?_spelled canon hm
    rw [EntityKey.same_congr hsame, find?_spelled canon hm', Option.some.injEq] at hfound
    rw [hfound]

end UnitRecord

/-! ## Respelled units without defects -/

namespace Trace

variable {canon : String → String} {t : Trace}

/-- Every key that has been met is one without defects. -/
def Valid (t : Trace) : Prop :=
  ∀ key ∈ t.keys, key.check = .ok ()

theorem Valid.ask (h : t.Valid) (path : String) : (t.ask canon path).Valid := by
  unfold Trace.ask
  split <;> exact h

theorem Valid.meet (h : t.Valid) {key : EntityKey} (hk : key.check = .ok ()) : (t.meet canon key).Valid := by
  unfold Trace.meet
  split
  · exact h
  · intro c hc
    rcases List.mem_cons.1 hc with rfl | hc
    · exact hk
    · exact h c hc

theorem Valid.spelled (h : t.Valid) {key : EntityKey} (hk : key.check = .ok ()) :
    (key.spelled t.keys).check = .ok () := by
  unfold EntityKey.spelled
  cases hf : t.keys.find? fun c => c.same key with
  | none => exact hk
  | some c => exact h c (List.mem_of_find?_eq_some hf)

end Trace

namespace UnitRecord

variable {canon : String → String} {u : UnitRecord}

theorem trace_valid (hu : u.check = .ok ()) : (u.trace canon).Valid := by
  obtain ⟨hentities, hreferences, hrelations⟩ := check_eq_ok hu
  have hsources : (u.sourceFiles.foldl (Trace.ask canon) {}).Valid :=
    List.foldlRecOn _ _ (fun _ h => by cases h) fun t ht path _ => ht.ask path
  have hrecords : (u.entities.foldl (Trace.record canon) (u.sourceFiles.foldl (Trace.ask canon) {})).Valid :=
    List.foldlRecOn _ _ hsources fun t ht r hr c hc => by
      rcases List.mem_cons.1 hc with rfl | hc
      · exact hentities r hr
      · exact ht c hc
  have hrefs : Trace.Valid (u.references.foldl (Trace.reference canon) _) :=
    List.foldlRecOn _ _ hrecords fun t ht r hr => Trace.Valid.ask (List.foldlRecOn _ _ ht fun t ht key hk =>
      ht.meet ((ReferenceRecord.check_eq_ok (hreferences r hr)).1 key hk)) _
  have hrels : Trace.Valid (u.relations.foldl (Trace.relation canon) _) :=
    List.foldlRecOn _ _ hrefs fun t ht r hr => List.foldlRecOn _ _ ht fun t ht key hk =>
      ht.meet (RelationRecord.check_eq_ok (hrelations r hr) key hk)
  exact List.foldlRecOn _ _ hrels fun t ht path _ => ht.ask path

end UnitRecord

theorem forM_ok {ε α : Type} {f : α → Except ε Unit} : ∀ {l : List α}, (∀ a ∈ l, f a = .ok ()) → l.forM f = .ok ()
  | [], _ => rfl
  | a :: l, h => by
    show (f a >>= fun _ => l.forM f) = .ok ()
    rw [h a List.mem_cons_self]
    exact forM_ok fun b hb => h b (List.mem_cons_of_mem _ hb)

/-- What is checked of a reference once its keys are known to be without defects. -/
theorem ReferenceRecord.check_iff {r : ReferenceRecord} (h : ∀ key ∈ r.keys, key.check = .ok ()) :
    r.check = .ok () ↔ r.location.isValid = true ∧ (Text.isBlank r.kindId || Text.isControl r.kindId) = false := by
  have hentity := h r.entity List.mem_cons_self
  unfold check
  rw [hentity]
  cases hs : r.scope with
  | none =>
    cases r.location.isValid <;> cases (Text.isBlank r.kindId || Text.isControl r.kindId) <;>
      simp [bind, Except.bind, throw, throwThe, MonadExceptOf.throw, pure, Except.pure]
  | some key =>
    have hkey := h key (by simp [keys, hs])
    simp only [hkey]
    cases r.location.isValid <;> cases (Text.isBlank r.kindId || Text.isControl r.kindId) <;>
      simp [bind, Except.bind, throw, throwThe, MonadExceptOf.throw, pure, Except.pure]

theorem ReferenceRecord.check_respelled {t : Trace} (ht : t.Valid) {r : ReferenceRecord} (h : r.check = .ok ()) :
    (r.respelled t.keys).check = .ok () := by
  obtain ⟨hkeys, -⟩ := check_eq_ok h
  have hrespelled : ∀ key ∈ (r.respelled t.keys).keys, key.check = .ok () := by
    intro key hk
    rw [keys_respelled] at hk
    obtain ⟨m, hm, rfl⟩ := List.mem_map.1 hk
    exact ht.spelled (hkeys m hm)
  rw [check_iff hkeys] at h
  rw [check_iff hrespelled]
  exact h

theorem RelationRecord.check_respelled {t : Trace} (ht : t.Valid) {r : RelationRecord} (h : r.check = .ok ()) :
    (r.respelled t.keys).check = .ok () := by
  have hsource := check_eq_ok h r.source (by simp [keys])
  have htarget := check_eq_ok h r.target (by simp [keys])
  unfold check at h ⊢
  rw [hsource, htarget] at h
  rw [show (r.respelled t.keys).source.check = .ok () from ht.spelled hsource,
    show (r.respelled t.keys).target.check = .ok () from ht.spelled htarget]
  cases hk : r.kind.isEmpty with
  | true => simp [bind, Except.bind, hk, throw, throwThe, MonadExceptOf.throw] at h
  | false => simp [bind, Except.bind, respelled, hk, pure, Except.pure]

theorem UnitRecord.check_respelled {canon : String → String} {u : UnitRecord} (hu : u.check = .ok ()) :
    (u.respelled canon).check = .ok () := by
  obtain ⟨hentities, hreferences, hrelations⟩ := check_eq_ok hu
  have hfile : u.indexFile.isEmpty = false := by
    cases he : u.indexFile.isEmpty with
    | false => rfl
    | true => simp [check, he, bind, Except.bind, throw, throwThe, MonadExceptOf.throw] at hu
  have hrefs : ∀ r ∈ (u.respelled canon).references, r.check = .ok () := by
    intro r hr
    obtain ⟨r', hr', rfl⟩ := List.mem_map.1 hr
    exact ReferenceRecord.check_respelled (trace_valid hu) (hreferences r' hr')
  have hrels : ∀ r ∈ (u.respelled canon).relations, r.check = .ok () := by
    intro r hr
    obtain ⟨r', hr', rfl⟩ := List.mem_map.1 hr
    exact RelationRecord.check_respelled (trace_valid hu) (hrelations r' hr')
  unfold check
  rw [show (u.respelled canon).indexFile.isEmpty = false from hfile]
  show ((u.entities.forM fun r => r.key.check) >>= fun _ =>
    (u.respelled canon).references.forM ReferenceRecord.check >>= fun _ =>
     (u.respelled canon).relations.forM RelationRecord.check) = .ok ()
  rw [forM_ok hentities, forM_ok hrefs, forM_ok hrels]
  rfl

/-! ## The spec of a write -/

variable {canon : String → String} {s : Store} {u : UnitRecord}

theorem Writer.drafted_spec_respelled (hs : s.Sound) (hu : u.check = .ok ()) :
    Drafted canon s (u.respelled canon) (s.drafted canon u) := by
  rw [← drafted_respelled]
  exact (drafted_of_spelled hs (UnitRecord.check_respelled hu)).2.2 (UnitRecord.respelled_spelled canon u)

/-- Writing a unit without defects does what the unit says respelled. -/
theorem Store.replaceUnit_respelled (hs : s.Sound) (hu : u.check = .ok ()) :
    s.Replaced canon (u.respelled canon) (s.replaceUnit canon u) := by
  have hsame : s.replaceUnit canon (u.respelled canon) = s.replaceUnit canon u :=
    congrArg Writer.finish (Writer.drafted_respelled canon s u)
  rw [← hsame]
  exact replaceUnit_of_spelled hs (UnitRecord.check_respelled hu) (UnitRecord.respelled_spelled canon u)

end CrossIndex
