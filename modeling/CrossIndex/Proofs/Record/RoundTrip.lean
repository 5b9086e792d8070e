/-
Unit records survive being written. The fields of a written record are found by name again, what may be
absent is written as null and read as absent, and numbers within their bounds are taken as they are.
Main statement: a unit is read back from its text, on one line or over several, and so it is from a file
that holds this text, there under the identity and freshness of its stamp.
-/
import CrossIndex.Path.Suffix
import CrossIndex.Proofs.Json.Text
import CrossIndex.Record.Writer
import CrossIndex.Source.Directory
import Mathlib.Data.List.Nodup

namespace CrossIndex

namespace Json

/-! ## Fields -/

theorem named?_object (members : List (String × Json)) :
    named? (members.map fun m => (some m.1, m.2)) = some members := by
  induction members with
  | nil => rfl
  | cons m members ih =>
    unfold named? at ih ⊢
    rw [List.map_cons, List.mapM_cons, ih]
    rfl

theorem atMostOnce_of_nodup {members : List (String × Json)} (h : (members.map Prod.fst).Nodup) (name : String) :
    atMostOnce members name = true := by
  have hcount := List.nodup_iff_count_le_one.1 h name
  rw [List.count_eq_countP, List.countP_map, List.countP_eq_length_filter] at hcount
  exact decide_eq_true hcount

theorem lookup_of_nodup {members : List (String × Json)} (h : (members.map Prod.fst).Nodup) :
    ∀ m ∈ members, members.lookup m.1 = some m.2 := by
  induction members with
  | nil => exact fun m hm => by cases hm
  | cons first members ih =>
    rw [List.map_cons, List.nodup_cons] at h
    intro m hm
    rcases List.mem_cons.1 hm with rfl | hm
    · exact List.lookup_cons_self
    · have hne : m.1 ≠ first.1 := fun e => h.1 (e ▸ List.mem_map_of_mem hm)
      rw [List.lookup_cons, beq_eq_false_iff_ne.2 hne]
      exact ih h.2 m hm

/-- A written record has its fields by their names. -/
theorem fields?_object {names : List String} {members : List (String × Json)} (hnames : members.map Prod.fst = names)
    (h : names.Nodup) : fields? names (object members) = some (members.map fun m => some m.2) := by
  subst hnames
  have honce : (members.map Prod.fst).all (atMostOnce members) = true :=
    List.all_eq_true.2 fun name _ => atMostOnce_of_nodup h name
  have hvalues : (members.map Prod.fst).map (fun name => members.lookup name) = members.map fun m => some m.2 := by
    rw [List.map_map]
    exact List.map_congr_left (lookup_of_nodup h)
  rw [object, fields?, named?_object]
  simp only [Option.bind_eq_bind, Option.bind_some, honce, if_true, hvalues]
  rfl

variable {α : Type} {read : Json → Option α} {write : α → Json}

/-- What may be absent is read back if what is there is, and is not written as null. -/
theorem optional_orNull (o : Option α) (h : ∀ a ∈ o, read (write a) = some a) (hnull : ∀ a, write a ≠ .null) :
    optional read (some (orNull write o)) = some o := by
  cases o with
  | none => rfl
  | some a =>
    have hread := h a rfl
    unfold orNull optional
    split
    · contradiction
    · rename_i heq
      exact absurd (Option.some.inj heq) (hnull a)
    · rename_i heq
      rw [← Option.some.inj heq, hread]
      rfl

theorem list?_map (as : List α) (h : ∀ a ∈ as, read (write a) = some a) :
    list? read (.arr (as.map write)) = some as := by
  show (as.map write).mapM read = some as
  induction as with
  | nil => rfl
  | cons a as ih =>
    rw [List.map_cons, List.mapM_cons, h a List.mem_cons_self, ih fun b hb => h b (List.mem_cons_of_mem a hb)]
    rfl

theorem asText?_text (s : String) : asText? (text s) = some s :=
  rfl

theorem int32?_int {i : Int} (h : InInt32 i) : int32? (.int i) = some i := by
  simp [int32?, intWithin, asInt?, h.1, h.2]

theorem int64?_int {i : Int} (h : InInt64 i) : int64? (.int i) = some i := by
  simp [int64?, intWithin, asInt?, h.1, h.2]

theorem char?_text (c : Char) : char? (text (String.ofList [c])) = some c := by
  simp [char?, text, asText?]

theorem definite_orNull {o : Option α} (h : ∀ a, Definite (write a)) : Definite (orNull write o) := by
  cases o with
  | none => exact .null
  | some a => exact h a

theorem definite_map {as : List α} (h : ∀ a, Definite (write a)) : Definite (.arr (as.map write)) :=
  .arr (List.forall_mem_map.2 fun a _ => h a)

end Json

open Json

/-! ## Records

A record is read back from its value field by field. Positions and orders have to be 32-bit numbers and
stamps 64-bit ones, since a reader takes no others. -/

/-- The numbers of a location are within their bounds. -/
structure Location.InRange (l : Location) : Prop where
  line : InInt32 l.line
  column : InInt32 l.column

instance (l : Location) : Decidable l.InRange :=
  decidable_of_iff (InInt32 l.line ∧ InInt32 l.column) ⟨fun ⟨hline, hcolumn⟩ => ⟨hline, hcolumn⟩, fun h => ⟨h.1, h.2⟩⟩

theorem Location.ofJson?_toJson {l : Location} (h : l.InRange) : Location.ofJson? l.toJson = some l := by
  have hfields : fields? ["file", "line", "column"] l.toJson =
      some [some (text l.file), some (.int l.line), some (.int l.column)] := fields?_object rfl (by decide)
  simp only [Location.ofJson?, hfields, Option.bind_eq_bind, Option.bind_some, required, asText?_text,
    int32?_int h.line, int32?_int h.column]
  rfl

/-- The numbers of a key are within their bounds. -/
def EntityKey.InRange (k : EntityKey) : Prop :=
  ∀ l ∈ k.decl, l.InRange

instance (k : EntityKey) : Decidable k.InRange :=
  inferInstanceAs (Decidable (∀ l ∈ k.decl, l.InRange))

theorem EntityKey.ofJson?_toJson {k : EntityKey} (h : k.InRange) : EntityKey.ofJson? k.toJson = some k := by
  have hfields : fields? ["name", "decl"] k.toJson = some [some (text k.name), some (orNull Location.toJson k.decl)] :=
    fields?_object rfl (by decide)
  have hdecl := optional_orNull k.decl (fun l hl => Location.ofJson?_toJson (h l hl)) fun _ => Json.noConfusion
  simp only [EntityKey.ofJson?, hfields, Option.bind_eq_bind, Option.bind_some, required, asText?_text, hdecl]
  rfl

theorem EntityFlags.ofJson?_toJson (f : EntityFlags) : EntityFlags.ofJson? f.toJson = some f := by
  have hfields : fields? EntityFlags.names f.toJson = some (f.named.map fun flag => some (.bool flag.2)) :=
    fields?_object rfl (by decide)
  rw [EntityFlags.ofJson?, hfields]
  -- the names are fixed, so reading one flag after the other computes
  rfl

/-- The numbers of a recorded entity are within their bounds. -/
def EntityRecord.InRange (r : EntityRecord) : Prop :=
  ∀ l ∈ r.decl, l.InRange

instance (r : EntityRecord) : Decidable r.InRange :=
  inferInstanceAs (Decidable (∀ l ∈ r.decl, l.InRange))

theorem EntityRecord.ofJson?_toJson {r : EntityRecord} (h : r.InRange) : EntityRecord.ofJson? r.toJson = some r := by
  have hfields : fields? ["name", "kind", "decl", "flags"] r.toJson = some [some (text r.name), some (text r.kind),
      some (orNull Location.toJson r.decl), some r.flags.toJson] := fields?_object rfl (by decide)
  have hdecl := optional_orNull r.decl (fun l hl => Location.ofJson?_toJson (h l hl)) fun _ => Json.noConfusion
  simp only [EntityRecord.ofJson?, hfields, Option.bind_eq_bind, Option.bind_some, required, defaulting, asText?_text,
    hdecl, EntityFlags.ofJson?_toJson]
  rfl

/-- The numbers of a recorded reference are within their bounds. -/
structure ReferenceRecord.InRange (r : ReferenceRecord) : Prop where
  entity : r.entity.InRange
  location : r.location.InRange
  scope : ∀ k ∈ r.scope, k.InRange

instance (r : ReferenceRecord) : Decidable r.InRange :=
  decidable_of_iff (r.entity.InRange ∧ r.location.InRange ∧ ∀ k ∈ r.scope, k.InRange)
    ⟨fun ⟨hentity, hlocation, hscope⟩ => ⟨hentity, hlocation, hscope⟩, fun h => ⟨h.1, h.2, h.3⟩⟩

theorem ReferenceRecord.ofJson?_toJson {r : ReferenceRecord} (h : r.InRange) :
    ReferenceRecord.ofJson? r.toJson = some r := by
  have hfields : fields? ["entity", "location", "kind_id", "scope"] r.toJson = some [some r.entity.toJson,
      some r.location.toJson, some (text (String.ofList [r.kindId])), some (orNull EntityKey.toJson r.scope)] :=
    fields?_object rfl (by decide)
  have hscope := optional_orNull r.scope (fun k hk => EntityKey.ofJson?_toJson (h.scope k hk)) fun _ => Json.noConfusion
  simp only [ReferenceRecord.ofJson?, hfields, Option.bind_eq_bind, Option.bind_some, required,
    EntityKey.ofJson?_toJson h.entity, Location.ofJson?_toJson h.location, char?_text, hscope]
  rfl

theorem ParameterKind.ofJson?_toJson (k : ParameterKind) : ParameterKind.ofJson? k.toJson = some k := by
  cases k <;> rfl

/-- The numbers of a recorded relation are within their bounds. -/
structure RelationRecord.InRange (r : RelationRecord) : Prop where
  source : r.source.InRange
  target : r.target.InRange
  order : InInt32 r.order

instance (r : RelationRecord) : Decidable r.InRange :=
  decidable_of_iff (r.source.InRange ∧ r.target.InRange ∧ InInt32 r.order)
    ⟨fun ⟨hsource, htarget, horder⟩ => ⟨hsource, htarget, horder⟩, fun h => ⟨h.1, h.2, h.3⟩⟩

theorem RelationRecord.ofJson?_toJson {r : RelationRecord} (h : r.InRange) :
    RelationRecord.ofJson? r.toJson = some r := by
  have hfields : fields? ["from", "to", "kind", "order", "parameter_kind"] r.toJson = some [some r.source.toJson,
      some r.target.toJson, some (text r.kind), some (.int r.order),
      some (orNull ParameterKind.toJson r.parameterKind)] := fields?_object rfl (by decide)
  have hkind := optional_orNull r.parameterKind (fun k _ => ParameterKind.ofJson?_toJson k)
    fun _ => Json.noConfusion
  simp only [RelationRecord.ofJson?, hfields, Option.bind_eq_bind, Option.bind_some, required, defaulting,
    EntityKey.ofJson?_toJson h.source, EntityKey.ofJson?_toJson h.target, asText?_text, int32?_int h.order, hkind]
  rfl

/-- The numbers of a unit are within their bounds. -/
structure UnitRecord.InRange (u : UnitRecord) : Prop where
  stamp : InInt64 u.stamp
  entities : ∀ r ∈ u.entities, r.InRange
  references : ∀ r ∈ u.references, r.InRange
  relations : ∀ r ∈ u.relations, r.InRange

instance (u : UnitRecord) : Decidable u.InRange :=
  decidable_of_iff (InInt64 u.stamp ∧ (∀ r ∈ u.entities, r.InRange) ∧ (∀ r ∈ u.references, r.InRange) ∧
      ∀ r ∈ u.relations, r.InRange)
    ⟨fun ⟨hstamp, hentities, hreferences, hrelations⟩ => ⟨hstamp, hentities, hreferences, hrelations⟩,
      fun h => ⟨h.1, h.2, h.3, h.4⟩⟩

theorem UnitRecord.ofJson?_toJson {u : UnitRecord} (h : u.InRange) : UnitRecord.ofJson? u.toJson = some u := by
  have hfields : fields? UnitRecord.names u.toJson = some [some (text u.indexFile), some (.int u.stamp),
      some (orNull text u.checksum), some (.arr (u.sourceFiles.map text)), some (.arr (u.dependencies.map text)),
      some (.arr (u.entities.map EntityRecord.toJson)), some (.arr (u.references.map ReferenceRecord.toJson)),
      some (.arr (u.relations.map RelationRecord.toJson))] := fields?_object rfl (by decide)
  have hchecksum := optional_orNull u.checksum (fun s _ => asText?_text s) fun _ => Json.noConfusion
  have hsources := list?_map u.sourceFiles fun s _ => asText?_text s
  have hdependencies := list?_map u.dependencies fun s _ => asText?_text s
  have hentities := list?_map u.entities fun r hr => EntityRecord.ofJson?_toJson (h.entities r hr)
  have hreferences := list?_map u.references fun r hr => ReferenceRecord.ofJson?_toJson (h.references r hr)
  have hrelations := list?_map u.relations fun r hr => RelationRecord.ofJson?_toJson (h.relations r hr)
  simp only [UnitRecord.ofJson?, hfields, Option.bind_eq_bind, Option.bind_some, defaulting, asText?_text,
    int64?_int h.stamp, hchecksum, hsources, hdependencies, hentities, hreferences, hrelations]
  rfl

/-! ## Texts -/

theorem Location.toJson_definite (l : Location) : Definite l.toJson :=
  .object (by simp [Definite.text, Definite.int])

theorem EntityKey.toJson_definite (k : EntityKey) : Definite k.toJson :=
  .object (by simp [Definite.text, definite_orNull Location.toJson_definite])

theorem EntityFlags.toJson_definite (f : EntityFlags) : Definite f.toJson :=
  .object (List.forall_mem_map.2 fun flag _ => .bool flag.2)

theorem EntityRecord.toJson_definite (r : EntityRecord) : Definite r.toJson :=
  .object (by simp [Definite.text, definite_orNull Location.toJson_definite, EntityFlags.toJson_definite])

theorem ReferenceRecord.toJson_definite (r : ReferenceRecord) : Definite r.toJson :=
  .object (by simp [Definite.text, EntityKey.toJson_definite, Location.toJson_definite,
    definite_orNull EntityKey.toJson_definite])

theorem ParameterKind.toJson_definite (k : ParameterKind) : Definite k.toJson :=
  .text k.text

theorem RelationRecord.toJson_definite (r : RelationRecord) : Definite r.toJson :=
  .object (by simp [Definite.text, Definite.int, EntityKey.toJson_definite,
    definite_orNull ParameterKind.toJson_definite])

theorem UnitRecord.toJson_definite (u : UnitRecord) : Definite u.toJson :=
  .object (by simp [Definite.text, Definite.int, definite_orNull Definite.text, definite_map Definite.text,
    definite_map EntityRecord.toJson_definite, definite_map ReferenceRecord.toJson_definite,
    definite_map RelationRecord.toJson_definite])

theorem UnitRecord.ofText?_render {u : UnitRecord} (h : u.InRange) : UnitRecord.ofText? u.render = some u := by
  rw [UnitRecord.ofText?, UnitRecord.render, u.toJson_definite.parse?_render, Option.bind_eq_bind,
    Option.bind_some]
  exact UnitRecord.ofJson?_toJson h

theorem UnitRecord.ofText?_renderPretty {u : UnitRecord} (h : u.InRange) :
    UnitRecord.ofText? u.renderPretty = some u := by
  rw [UnitRecord.ofText?, UnitRecord.renderPretty, u.toJson_definite.parse?_renderPretty, Option.bind_eq_bind,
    Option.bind_some]
  exact UnitRecord.ofJson?_toJson h

/-! ## Files -/

namespace DirectorySource

/-- Bytes that were written for a text hold this text. -/
theorem textOf?_bytes (s : String) : textOf? (Path.bytes s) = some s := by
  have hvalid : (ByteArray.mk (Path.bytes s).toArray).IsValidUTF8 := s.isValidUTF8
  rw [textOf?, String.fromUTF8?, dif_pos hvalid]
  rfl

theorem load_of_text {d : DirectorySource} {stamp : UnitStamp} {text : String} {u : UnitRecord} {modified : Int}
    (hfile : d.tree.lookupFile stamp.indexFile = some ⟨.bytes (Path.bytes text), modified⟩)
    (htext : UnitRecord.ofText? text = some u) : d.load stamp = .ok (identified stamp u) := by
  have hrecord : d.recordAt? stamp.indexFile = some u := by
    rw [recordAt?, hfile]
    simp only [Option.bind_eq_bind, Option.bind_some, textOf?_bytes, htext]
  rw [load, hrecord]

end DirectorySource

/-- A unit is read back from its text, on one line or over several. So it is from a file of a directory that holds
this text, there under the identity and freshness of the stamp that it is loaded with. -/
theorem UnitRecord.survives_writing (u : UnitRecord) (h : u.InRange) (text : String)
    (htext : text = u.render ∨ text = u.renderPretty) :
    UnitRecord.ofText? text = some u ∧
    ∀ (d : DirectorySource) (stamp : UnitStamp) (modified : Int),
      d.tree.lookupFile stamp.indexFile = some ⟨.bytes (Path.bytes text), modified⟩ →
      d.load stamp =
        .ok { u with indexFile := stamp.indexFile, stamp := stamp.stamp, checksum := stamp.checksum } := by
  have hread : UnitRecord.ofText? text = some u := by
    rcases htext with rfl | rfl
    · exact UnitRecord.ofText?_render h
    · exact UnitRecord.ofText?_renderPretty h
  exact ⟨hread, fun d stamp modified hfile => DirectorySource.load_of_text hfile hread⟩

/-- A unit with names outside of ASCII, with quotes, backslashes and control characters in its texts, and with
numbers at both ends of their ranges. -/
def ornateUnit : UnitRecord where
  indexFile := "obj/\"µ\".ali"
  stamp := -9223372036854775808
  checksum := some "\x00\n\\"
  sourceFiles := ["src/größe.ads", ""]
  dependencies := ["src/\t\x7f.ads"]
  entities := [⟨"Größe", "function", some ⟨"src/größe.ads", 2147483647, -2147483648⟩,
    { isSubprogram := true, hasMethods := true }⟩]
  references := [⟨⟨"Größe", none⟩, ⟨"src/größe.ads", 0, -1⟩, '\"', some ⟨"𝔊", some ⟨"/", 3, 4⟩⟩⟩]
  relations := [⟨⟨"Größe", none⟩, ⟨"𝔊", none⟩, "parameter", -2147483648, some .inOut⟩]

/-- The name of a file for it. -/
def ornateName : Path.Name :=
  "u.xref.json".toList

/-- A tree with one file, which holds this unit over several lines. -/
def ornateTree : FileTree :=
  ⟨[([ornateName], .file 0)], #[⟨.bytes (Path.bytes ornateUnit.renderPretty), 7⟩], []⟩

theorem ornateTree_lookupFile :
    ornateTree.lookupFile "./u.xref.json" = some ⟨.bytes (Path.bytes ornateUnit.renderPretty), 7⟩ := by
  have hnames : Path.segments "./u.xref.json".toList = [Path.here, ornateName] := by decide +kernel
  have hroot : ornateTree.node? [] = some .directory := rfl
  have hfile : ornateTree.node? [ornateName] = some (.file 0) := by decide +kernel
  have hname : ornateName ≠ [] ∧ ornateName ≠ Path.here ∧ ornateName ≠ Path.up := by decide +kernel
  have hsize : ¬ FileTree.nameLimit < FileTree.nameSize ornateName := by decide +kernel
  have hspot : ornateTree.follow false FileTree.linkLimit [] [Path.here, ornateName] = .ok [ornateName] := by
    simp [FileTree.follow, hroot, hfile, hname, hsize]
  have hresolve : ornateTree.resolve "./u.xref.json" = .ok [ornateName] := by
    rw [FileTree.resolve, FileTree.followPath, if_neg (by decide +kernel), if_neg (by decide +kernel),
      if_neg (by decide +kernel), hnames]
    exact hspot
  rw [FileTree.lookupFile, FileTree.lookup, hresolve]
  simp only [hfile]
  rfl

/-- Loaded with another stamp, it is as it was written but for this. -/
theorem ornateUnit_survives_writing :
    ornateUnit.InRange ∧ UnitRecord.ofText? ornateUnit.render = some ornateUnit ∧
    (⟨ornateTree, "."⟩ : DirectorySource).load ⟨"./u.xref.json", 7, none⟩ =
      .ok { ornateUnit with indexFile := "./u.xref.json", stamp := 7, checksum := none } := by
  have hrange : ornateUnit.InRange := by decide +kernel
  exact ⟨hrange, (UnitRecord.survives_writing ornateUnit hrange _ (.inl rfl)).1,
    (UnitRecord.survives_writing ornateUnit hrange _ (.inr rfl)).2 ⟨ornateTree, "."⟩ ⟨"./u.xref.json", 7, none⟩ 7
      ornateTree_lookupFile⟩

end CrossIndex
