/-
Updates one after the other, compared with one update of a fresh store. Units are skipped by their
stamps while others are written and pruned, and what a unit owned goes with its references from units
that are skipped. Main statements: as long as the entities that units go on mentioning lose nothing
(`Stable`), the content after any number of updates is that of a fresh store updated with the last
source; without one of the three parts of `Stable` it is not.
-/
import CrossIndex.Proofs.Update.Pass
import CrossIndex.Source.Memory

namespace CrossIndex

/-- Settings and a source for one update: missing units are pruned, and the source offers the units. -/
structure Offer where
  config : Config
  source : Source
  units : List UnitRecord
  prunes : config.pruneMissingUnits = true
  presents : source.Presents units

/-- Updates a store with one source after the other. -/
def Store.updateAll (canon : String → String) (offers : List Offer) (s : Store) : Store :=
  offers.foldl (fun s offer => (s.update canon offer.config offer.source false none).store) s

/-- What is taken for granted of all the units in a history: they go together, no two units of a
source have the same index file, and the stamp of a unit rises whenever its record changes. -/
structure History (canon : String → String) (sources : List (List UnitRecord)) : Prop where
  coherent : Coherent canon sources.flatten
  distinct : ∀ us ∈ sources, (us.map UnitRecord.indexFile).Nodup
  newer : sources.IsChain Newer

/-- The content after some updates and a last one is that of a fresh store updated with the last one. -/
def Converges (canon : String → String) (offers : List Offer) (last : Offer) : Prop :=
  (Store.fresh.updateAll canon (offers ++ [last])).content = (Store.fresh.updateAll canon [last]).content

/-! ## Conditions that can be checked -/

section Decide

variable (canon : String → String) (us : List UnitRecord) (k : EntityKey)

def mentionedKeys : List EntityKey :=
  us.flatMap fun u => u.mentioned.map (EntityKey.stored canon)

theorem mem_mentionedKeys : k ∈ mentionedKeys canon us ↔ Mentioned canon us k :=
  List.mem_flatMap

instance (keys : List EntityKey) : Decidable (EntityKey.Alike canon keys) :=
  inferInstanceAs (Decidable (∀ a ∈ keys, ∀ b ∈ keys, a.same b = true → a.stored canon = b.stored canon))

instance (u : UnitRecord) : Decidable (u.Records canon k) :=
  inferInstanceAs (Decidable (k ∈ u.recorded.map (EntityKey.stored canon)))

instance (u : UnitRecord) : Decidable (u.Declares canon k) :=
  inferInstanceAs (Decidable (u.Records canon k ∧ k.within (u.sourceFiles.map canon) = true))

instance : Decidable (Mentioned canon us k) :=
  decidable_of_iff _ (mem_mentionedKeys canon us k)

instance : Decidable (Recorded canon us k) :=
  inferInstanceAs (Decidable (∃ u ∈ us, u.Records canon k))

instance : Decidable (Declared canon us k) :=
  inferInstanceAs (Decidable (∃ u ∈ us, u.Declares canon k))

instance : Decidable (InUse canon us k) :=
  inferInstanceAs (Decidable (Mentioned canon us k ∨ Declared canon us k))

instance : DecidableRel Newer := fun old new =>
  inferInstanceAs (Decidable (∀ u ∈ old, ∀ u' ∈ new, u.indexFile = u'.indexFile → u ≠ u' → u.stamp < u'.stamp))

/-- Only the entities that the units of after mention have to be looked at. -/
theorem stable_iff (old new : List UnitRecord) : (∀ k ∈ mentionedKeys canon new,
    (Declared canon old k → Declared canon new k) ∧ (Recorded canon old k → InUse canon old k → Recorded canon new k) ∧
      (Recorded canon new k → (∃ u ∈ new, u ∉ old ∧ u.Records canon k) ∨ InUse canon old k)) ↔
    Stable canon old new := by
  simp only [mem_mentionedKeys]
  constructor
  · intro h
    exact ⟨fun k hk => (h k hk).1, fun k hk => (h k hk).2.1, fun k hk => (h k hk).2.2⟩
  · intro h k hk
    exact ⟨h.declared k hk, h.recorded k hk, h.described k hk⟩

instance : DecidableRel (Stable canon) := fun old new =>
  decidable_of_iff _ (stable_iff canon old new)

end Decide

/-! ## Offers from memory -/

/-- A source that holds units with different paths in memory offers these units. -/
theorem MemorySource.presents {us : List UnitRecord}
    (h : us.Pairwise fun u u' => Path.same u.indexFile u'.indexFile = false) :
    (MemorySource.mk (us.map fun u => (u.indexFile, .ok u))).toSource.Presents us := by
  constructor
  · show Except.ok ((us.map _).map stampOf) = _
    rw [List.map_map]
    rfl
  · intro u hu
    have hfind : us.find? (fun u' => Path.same u'.indexFile u.indexFile) = some u := by
      induction h with
      | nil => cases hu
      | cons hne _ ih =>
        rcases List.mem_cons.1 hu with rfl | hu
        · simp [Path.same]
        · rw [List.find?_cons_of_neg (by simp [hne u hu]), ih hu]
    have hfound : (us.map fun u => (u.indexFile, (.ok u : Except String UnitRecord))).find?
        (fun entry => Path.same entry.1 u.unitStamp.indexFile) = some (u.indexFile, .ok u) := by
      rw [List.find?_map]
      exact congrArg (Option.map _) hfind
    simp only [toSource, load, hfound]

/-- Units with different paths, offered by a source in memory under the default settings. -/
def Offer.ofUnits (us : List UnitRecord) (h : us.Pairwise fun u u' => Path.same u.indexFile u'.indexFile = false) :
    Offer :=
  ⟨{}, _, us, rfl, MemorySource.presents h⟩

/-! ## Some units -/

namespace Sample

/-- An entity declared in a source file. -/
def declared : EntityRecord := ⟨"Count", "object", some ⟨"a.ads", 1, 3⟩, {}⟩

/-- An entity without a declaration. -/
def predefined : EntityRecord := ⟨"Integer", "type", none, {}⟩

/-- A unit that records some entities. -/
def recording (stamp : Int) (entities : List EntityRecord) : UnitRecord where
  indexFile := "a.ali"
  stamp := stamp
  sourceFiles := ["a.ads"]
  entities := entities

/-- A unit that refers to an entity. -/
def referring (r : EntityRecord) : UnitRecord where
  indexFile := "b.ali"
  stamp := 1
  sourceFiles := ["b.adb"]
  references := [⟨r.key, ⟨"b.adb", 2, 5⟩, 'r', none⟩]

/-- The offer of the first unit. -/
def one (stamp : Int) (entities : List EntityRecord) : Offer :=
  .ofUnits [recording stamp entities] (List.pairwise_singleton _ _)

/-- The offer of both units. -/
def both (stamp : Int) (entities : List EntityRecord) (r : EntityRecord) : Offer :=
  .ofUnits [recording stamp entities, referring r] (by
    have h : Path.same "a.ali" "b.ali" = false := by decide +kernel
    simpa [recording, referring] using h)

/-- How many entities are known by their key only. -/
def stubs (c : StoreContent) : Nat :=
  c.entities.countP fun r => r.kind = ""

end Sample

variable {canon : String → String}

/-! ## Every update is a turn -/

theorem Coherent.mono {us us' : List UnitRecord} (h : Coherent canon us) (hsub : ∀ u ∈ us', u ∈ us) :
    Coherent canon us' where
  valid u hu := h.valid u (hsub u hu)
  alike u hu := h.alike u (hsub u hu)
  unsummed u hu := h.unsummed u (hsub u hu)
  sources u hu u' hu' := h.sources u (hsub u hu) u' (hsub u' hu')
  kinds u hu := h.kinds u (hsub u hu)
  agree u hu u' hu' := h.agree u (hsub u hu) u' (hsub u' hu')

/-- From nothing to some units is always stable: whatever is recorded is recorded by a new unit. -/
theorem stable_nil (us : List UnitRecord) : Stable canon [] us where
  declared k _ h := by
    obtain ⟨u, hu, -⟩ := h
    cases hu
  recorded k _ h _ := by
    obtain ⟨u, hu, -⟩ := h
    cases hu
  described k _ h := by
    obtain ⟨u, hu, hr⟩ := h
    exact .inl ⟨u, hu, List.not_mem_nil, hr⟩

theorem isChain_nil_cons {R : List UnitRecord → List UnitRecord → Prop} (h : ∀ us, R [] us)
    {sources : List (List UnitRecord)} (hs : sources.IsChain R) : ([] :: sources).IsChain R := by
  cases sources with
  | nil => exact .singleton _
  | cons us sources => exact .cons_cons (h us) hs

theorem turns {old : List UnitRecord} : ∀ {sources : List (List UnitRecord)}, Coherent canon (old ++ sources.flatten) →
    (∀ us ∈ sources, (us.map UnitRecord.indexFile).Nodup) → (old :: sources).IsChain Newer →
    (old :: sources).IsChain (Stable canon) → (old :: sources).IsChain (Turn canon)
  | [], _, _, _, _ => .singleton _
  | us :: sources, hc, hd, hnewer, hstable => by
    rw [List.flatten_cons] at hc
    obtain ⟨hn, hnewer⟩ := List.isChain_cons_cons.1 hnewer
    obtain ⟨hs, hstable⟩ := List.isChain_cons_cons.1 hstable
    refine .cons_cons ⟨hc.mono fun u hu => ?_, hd us List.mem_cons_self, hn, hs⟩ (turns (hc.mono fun u hu => ?_)
      (fun us' hus' => hd us' (List.mem_cons_of_mem _ hus')) hnewer hstable)
    · simp only [List.mem_append] at hu ⊢
      tauto
    · exact List.mem_append_right _ hu

/-- A run of updates leaves a mirror of the last units. -/
theorem updateAll_mirrors {last : Offer} : ∀ (offers : List Offer) {old : List UnitRecord} {s : Store},
    Mirrors canon old s → (old :: (offers ++ [last]).map Offer.units).IsChain (Turn canon) →
    Mirrors canon last.units (s.updateAll canon (offers ++ [last]))
  | [], _, _, h, hturns =>
    Store.update_mirrors (List.isChain_cons_cons.1 hturns).1 h last.presents last.prunes
  | offer :: offers, _, _, h, hturns => by
    obtain ⟨hT, hturns⟩ := List.isChain_cons_cons.1 hturns
    exact updateAll_mirrors offers (Store.update_mirrors hT h offer.presents offer.prunes) hturns

/-- The content after any number of updates is that of a fresh store updated once with the last source,
as long as each source keeps what the entities that its units mention had. -/
theorem updates_converge (offers : List Offer) (last : Offer)
    (history : History canon ((offers ++ [last]).map Offer.units))
    (stable : ((offers ++ [last]).map Offer.units).IsChain (Stable canon)) : Converges canon offers last := by
  have hnewer : ∀ us, Newer [] us := fun us u hu => absurd hu List.not_mem_nil
  have hturns : ([] :: (offers ++ [last]).map Offer.units).IsChain (Turn canon) :=
    turns history.coherent history.distinct (isChain_nil_cons hnewer history.newer)
      (isChain_nil_cons stable_nil stable)
  have hmem : last.units ∈ (offers ++ [last]).map Offer.units :=
    List.mem_map_of_mem (List.mem_append_right _ (List.mem_singleton_self last))
  have hc : Coherent canon last.units := history.coherent.mono fun u hu => List.mem_flatten.2 ⟨_, hmem, hu⟩
  -- a rebuild is a history of one source, so both stores mirror the same units
  have honce : ([] :: ([] ++ [last]).map Offer.units).IsChain (Turn canon) :=
    .cons_cons ⟨hc, history.distinct _ hmem, hnewer _, stable_nil _⟩ (.singleton _)
  exact (updateAll_mirrors offers (fresh_mirrors canon) hturns).content_eq
    (updateAll_mirrors [] (fresh_mirrors canon) honce) hc

open Sample in
/-- A unit gets one more entity, the other one is taken out and comes back. -/
theorem growing_updates_converge :
    History Path.normalize ([both 1 [declared] declared, both 2 [declared, predefined] declared,
        one 2 [declared, predefined], both 2 [declared, predefined] declared].map Offer.units) ∧
      Converges Path.normalize [both 1 [declared] declared, both 2 [declared, predefined] declared,
        one 2 [declared, predefined]] (both 2 [declared, predefined] declared) := by
  have history : History Path.normalize (([both 1 [declared] declared, both 2 [declared, predefined] declared,
      one 2 [declared, predefined]] ++ [both 2 [declared, predefined] declared]).map Offer.units) := by
    refine ⟨⟨?_, ?_, ?_, ?_, ?_, ?_⟩, ?_, ?_⟩ <;> decide +kernel
  exact ⟨history, updates_converge _ _ history (by decide +kernel)⟩

/-- Where all units of a store are offered, it makes no difference whether missing ones are pruned. -/
theorem Store.update_of_offered {config : Config} {src : Source} {force : Bool} {s : Store} {units : List UnitStamp}
    (hunits : src.units = .ok units) (h : ∀ row ∈ s.units, ∃ u ∈ units, u.indexFile = row.indexFile) :
    s.update canon config src force none =
      s.update canon { config with pruneMissingUnits := false } src force none := by
  have hmissing : (Plan.make config force s units).missing = [] := by
    unfold Plan.make
    dsimp only
    split
    · refine List.filter_eq_nil_iff.2 fun file hfile => ?_
      obtain ⟨row, hrow, rfl⟩ := List.mem_map.1 (List.mem_mergeSort.1 hfile)
      obtain ⟨u, hu, he⟩ := h row (List.mem_filter.1 hrow).1
      simpa using ⟨u, hu, he⟩
    · rfl
  have hplan : Plan.make config force s units = Plan.make { config with pruneMissingUnits := false } force s units :=
    congrArg (Plan.mk _) hmissing
  have hseed : s.seed none = .ok (s, false, []) := rfl
  simp only [update_eq, hseed, hunits, updateSeeded_eq, hplan]

/-- Contents that read differently are different. -/
theorem diverges {first last : Offer} {α : Type} (read : StoreContent → α)
    (hoffered : ∀ row ∈ (Store.fresh.updateAll canon [first]).units,
      ∃ u ∈ last.units.map UnitRecord.unitStamp, u.indexFile = row.indexFile)
    (h : read ((Store.fresh.updateAll canon [first]).update canon { last.config with pruneMissingUnits := false }
      last.source false none).store.content ≠ read (Store.fresh.updateAll canon [last]).content) :
    ¬ Converges canon [first] last := by
  intro he
  rw [← Store.update_of_offered last.presents.units hoffered] at h
  exact h (congrArg read he)

open Sample in
/-- Where one part of stability is missing, updates may lead elsewhere than to a rebuild. A unit that
drops a declaration takes along the reference of a unit that is skipped; a kind stays when no unit
records it any more; and a kind that was purged with its unused entity does not come back when another
unit mentions the entity. -/
theorem unstable_updates_diverge :
    (History Path.normalize ([both 1 [declared] declared, both 2 [] declared].map Offer.units) ∧
      ¬ Converges Path.normalize [both 1 [declared] declared] (both 2 [] declared)) ∧
    (History Path.normalize ([both 1 [predefined] predefined, both 2 [] predefined].map Offer.units) ∧
      ¬ Converges Path.normalize [both 1 [predefined] predefined] (both 2 [] predefined)) ∧
    (History Path.normalize ([one 1 [predefined], both 1 [predefined] predefined].map Offer.units) ∧
      ¬ Converges Path.normalize [one 1 [predefined]] (both 1 [predefined] predefined)) := by
  refine ⟨⟨⟨⟨?_, ?_, ?_, ?_, ?_, ?_⟩, ?_, ?_⟩, diverges (fun c => c.references.card) ?_ ?_⟩,
    ⟨⟨⟨?_, ?_, ?_, ?_, ?_, ?_⟩, ?_, ?_⟩, diverges stubs ?_ ?_⟩,
    ⟨⟨⟨?_, ?_, ?_, ?_, ?_, ?_⟩, ?_, ?_⟩, diverges stubs ?_ ?_⟩⟩ <;> decide +kernel

end CrossIndex
