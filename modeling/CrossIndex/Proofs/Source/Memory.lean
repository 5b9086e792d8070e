/-
Sources in memory keep what they promise. Whatever is put in and taken out, the paths stand in strict
order and every unit stands under a spelling of its own index path. Main statement: a source in memory
offers distinct index files and loads what it has offered, or a defect.
-/
import CrossIndex.Proofs.Path.Order
import CrossIndex.Proofs.Update.Ingest
import CrossIndex.Source.Memory

namespace CrossIndex

/-- A source whose answers fit together: no index file is offered twice, and an offered unit loads to a
record with the offered freshness or fails by itself. -/
def Source.Faithful (src : Source) : Prop :=
  ∀ units, src.units = .ok units → (units.map UnitStamp.indexFile).Nodup ∧
    ∀ u ∈ units, (∃ f, src.load u = .error f ∧ f.isStorage = false) ∨ ∃ r, src.load u = .ok r ∧ r.unitStamp = u

namespace MemorySource

/-- The sources that can be made: units and unreadable units come and go. -/
inductive Built : MemorySource → Prop
  | empty : Built {}
  | insert {m : MemorySource} (u : UnitRecord) : Built m → Built (m.insert u)
  | insertUnreadable {m : MemorySource} (indexFile reason : String) :
      Built m → Built (m.insertUnreadable indexFile reason)
  | remove {m : MemorySource} (indexFile : String) : Built m → Built (m.remove indexFile)

theorem Built.foldl_insert : ∀ (us : List UnitRecord) {m : MemorySource}, Built m →
    Built (us.foldl MemorySource.insert m)
  | [], _, h => h
  | u :: us, _, h => Built.foldl_insert us (h.insert u)

/-- The paths stand in strict order, and each unit stands under a spelling of its index path. -/
structure Ordered (entries : List (String × Except String UnitRecord)) : Prop where
  sorted : entries.Pairwise fun a b => Path.order a.1 b.1 = .lt
  keyed : ∀ key u, (key, .ok u) ∈ entries → Path.same u.indexFile key = true

theorem mem_put {path : String} {unit : Except String UnitRecord} {x : String × Except String UnitRecord} :
    ∀ {entries : List (String × Except String UnitRecord)}, x ∈ put path unit entries →
      x ∈ entries ∨ x.2 = unit ∧ Path.same path x.1 = true
  | [], h => by
    obtain rfl := List.mem_singleton.1 h
    exact .inr ⟨rfl, by simp [Path.same]⟩
  | (key, old) :: rest, h => by
    unfold put at h
    cases ho : Path.order path key with
    | lt =>
      simp only [ho] at h
      rcases List.mem_cons.1 h with rfl | h
      · exact .inr ⟨rfl, by simp [Path.same]⟩
      · exact .inl h
    | eq =>
      simp only [ho] at h
      rcases List.mem_cons.1 h with rfl | h
      · exact .inr ⟨rfl, Path.order_eq_iff.1 ho⟩
      · exact .inl (List.mem_cons_of_mem _ h)
    | gt =>
      simp only [ho] at h
      rcases List.mem_cons.1 h with rfl | h
      · exact .inl List.mem_cons_self
      · exact (mem_put h).imp_left (List.mem_cons_of_mem _)

theorem put_sorted {path : String} {unit : Except String UnitRecord} :
    ∀ {entries : List (String × Except String UnitRecord)}, (entries.Pairwise fun a b => Path.order a.1 b.1 = .lt) →
      (put path unit entries).Pairwise fun a b => Path.order a.1 b.1 = .lt
  | [], _ => List.pairwise_singleton _ _
  | (key, old) :: rest, h => by
    obtain ⟨hkey, hrest⟩ := List.pairwise_cons.1 h
    unfold put
    cases ho : Path.order path key with
    | lt =>
      refine List.pairwise_cons.2 ⟨fun b hb => ?_, h⟩
      rcases List.mem_cons.1 hb with rfl | hb
      · exact ho
      · exact Path.order_trans ho (hkey b hb)
    | eq => exact List.pairwise_cons.2 ⟨hkey, hrest⟩
    | gt =>
      refine List.pairwise_cons.2 ⟨fun b hb => ?_, put_sorted hrest⟩
      rcases mem_put hb with hb | ⟨-, hsame⟩
      · exact hkey b hb
      · rw [← Path.order_congr_right hsame]
        exact Path.order_gt_iff.1 ho

theorem Ordered.put {path : String} {unit : Except String UnitRecord}
    {entries : List (String × Except String UnitRecord)}
    (h : Ordered entries) (hunit : ∀ u, unit = .ok u → u.indexFile = path) : Ordered (put path unit entries) := by
  refine ⟨put_sorted h.sorted, fun key u hu => ?_⟩
  rcases mem_put hu with hu | ⟨hu, hsame⟩
  · exact h.keyed key u hu
  · rw [hunit u hu.symm]
    exact hsame

theorem Built.ordered {m : MemorySource} (h : m.Built) : Ordered m.units := by
  induction h with
  | empty => exact ⟨.nil, fun _ _ h => by cases h⟩
  | insert u _ ih => exact ih.put fun u' hu => by cases hu; rfl
  | insertUnreadable indexFile reason _ ih => exact ih.put fun _ hu => by cases hu
  | remove indexFile _ ih =>
    exact ⟨ih.sorted.sublist List.filter_sublist, fun key u hu => ih.keyed key u (List.mem_of_mem_filter hu)⟩

/-- What is offered goes by a spelling of the path that it stands under. -/
theorem Ordered.same_stampOf {entries : List (String × Except String UnitRecord)} (h : Ordered entries)
    {x : String × Except String UnitRecord} (hx : x ∈ entries) : Path.same (stampOf x).indexFile x.1 = true := by
  obtain ⟨key, reason | u⟩ := x
  · simp [stampOf, Path.same]
  · exact h.keyed key u hx

theorem Ordered.find? {entries : List (String × Except String UnitRecord)} (h : Ordered entries)
    {x : String × Except String UnitRecord} (hx : x ∈ entries) :
    entries.find? (fun entry => Path.same entry.1 (stampOf x).indexFile) = some x := by
  have hself : Path.same x.1 (stampOf x).indexFile = true := by
    have hsame := h.same_stampOf hx
    simp only [Path.same, beq_iff_eq] at hsame ⊢
    exact hsame.symm
  have hsorted := h.sorted
  clear h
  induction hsorted with
  | nil => cases hx
  | @cons first rest hfirst _ ih =>
    rcases List.mem_cons.1 hx with rfl | hx
    · exact List.find?_cons_of_pos hself
    -- the paths ascend, so an earlier entry stands under a different path
    · have hne : Path.same first.1 (stampOf x).indexFile = false := by
        have hother := Path.same_of_order_lt (hfirst x hx)
        simp only [Path.same, beq_iff_eq, beq_eq_false_iff_ne] at hself hother ⊢
        rw [← hself]
        exact hother
      rw [List.find?_cons_of_neg (by simp [hne])]
      exact ih hx

/-- A source in memory is faithful, however it was made. -/
theorem Built.faithful {m : MemorySource} (h : m.Built) : m.toSource.Faithful := by
  have ho := h.ordered
  intro units hunits
  obtain rfl : m.units.map stampOf = units := Except.ok.inj hunits
  constructor
  · rw [List.map_map, List.Nodup, List.pairwise_map]
    refine ho.sorted.imp_of_mem fun ha hb hlt heq => ?_
    have hne := Path.same_of_order_lt hlt
    have hsame := ho.same_stampOf ha
    rw [show (stampOf _).indexFile = (stampOf _).indexFile from heq] at hsame
    have hsame' := ho.same_stampOf hb
    simp only [Path.same, beq_iff_eq, beq_eq_false_iff_ne] at hne hsame hsame'
    exact hne (hsame.symm.trans hsame')
  · intro u hu
    obtain ⟨x, hx, rfl⟩ := List.mem_map.1 hu
    have hfind := ho.find? hx
    obtain ⟨key, reason | r⟩ := x
    · exact .inl ⟨(Defect.unreadable reason).failure key, by simp only [toSource, load, hfind]; rfl, rfl⟩
    · exact .inr ⟨r, by simp only [toSource, load, hfind], rfl⟩

theorem mem_foldl_insert {x : String × Except String UnitRecord} : ∀ (us : List UnitRecord) {m : MemorySource},
    x ∈ (us.foldl MemorySource.insert m).units → x ∈ m.units ∨ ∃ u ∈ us, x.2 = .ok u
  | [], _, h => .inl h
  | u :: us, _, h => by
    rcases mem_foldl_insert us h with h | ⟨u', hu', hx⟩
    · exact (mem_put h).imp id fun hx => ⟨u, List.mem_cons_self, hx.1⟩
    · exact .inr ⟨u', List.mem_cons_of_mem _ hu', hx⟩

/-- Nothing loads but the units that were put in. -/
theorem mem_of_load_ofUnits {us : List UnitRecord} {v : UnitStamp} {u : UnitRecord}
    (h : (ofUnits us).toSource.load v = .ok u) : u ∈ us := by
  have hloaded : (ofUnits us).load v = .ok u := h
  unfold load at hloaded
  split at hloaded
  · rename_i key unit hfind
    obtain rfl := Except.ok.inj hloaded
    rcases mem_foldl_insert us (List.mem_of_find?_eq_some hfind) with hnone | ⟨u, hu, hunit⟩
    · cases hnone
    · obtain rfl := Except.ok.inj hunit
      exact hu
  · cases hloaded
  · cases hloaded

end MemorySource

end CrossIndex
