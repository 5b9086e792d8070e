/-
Declaration attributes in stored form: ten of them packed into one number, one bit each, the other
two beside it. Main statement: unpacking gives back what was packed.
-/
import CrossIndex.Record.Basic

namespace CrossIndex.EntityFlags

/-- The ten packed attributes, lowest bit first. -/
def packedList (f : EntityFlags) : List Bool :=
  [f.isSubprogram, f.isContainer, f.isAbstract, f.isGeneric, f.isAccess, f.isType, f.isArray,
    f.isPrintable, f.hasMethods, f.bodyIsFullDeclaration]

/-- The number whose bits are a list of truth values, lowest bit first. -/
def ofBits : List Bool → Nat
  | [] => 0
  | b :: bs => b.toNat + 2 * ofBits bs

/-- The packed attributes as one number. -/
def packed (f : EntityFlags) : Nat :=
  ofBits f.packedList

/-- The attributes with the packed ten and the two that stand apart. -/
def unpacked (isGlobal isStaticLocal : Bool) (bits : Nat) : EntityFlags where
  isSubprogram := bits.testBit 0
  isContainer := bits.testBit 1
  isAbstract := bits.testBit 2
  isGeneric := bits.testBit 3
  isAccess := bits.testBit 4
  isType := bits.testBit 5
  isArray := bits.testBit 6
  isPrintable := bits.testBit 7
  isGlobal := isGlobal
  isStaticLocal := isStaticLocal
  hasMethods := bits.testBit 8
  bodyIsFullDeclaration := bits.testBit 9

theorem testBit_ofBits (bs : List Bool) (i : Nat) : (ofBits bs).testBit i = bs.getD i false := by
  induction bs generalizing i with
  | nil => simp [ofBits]
  | cons b bs ih =>
    cases i with
    | zero => cases b <;> simp [ofBits, Nat.testBit_zero]
    | succ i =>
      have half : (b.toNat + 2 * ofBits bs) / 2 = ofBits bs := by
        have : b.toNat < 2 := b.toNat_lt
        omega
      simp only [ofBits, Nat.testBit_succ, half, ih, List.getD_cons_succ]

/-- Unpacking gives back what was packed. -/
theorem unpacked_packed (f : EntityFlags) : unpacked f.isGlobal f.isStaticLocal f.packed = f := by
  simp only [unpacked, packed, testBit_ofBits]
  rfl

/-- The names of the attributes, in the order of the fields, with their values. -/
def named (f : EntityFlags) : List (String × Bool) :=
  [("is_subprogram", f.isSubprogram), ("is_container", f.isContainer),
    ("is_abstract", f.isAbstract), ("is_generic", f.isGeneric), ("is_access", f.isAccess),
    ("is_type", f.isType), ("is_array", f.isArray), ("is_printable", f.isPrintable),
    ("is_global", f.isGlobal), ("is_static_local", f.isStaticLocal),
    ("has_methods", f.hasMethods), ("body_is_full_declaration", f.bodyIsFullDeclaration)]

end CrossIndex.EntityFlags
