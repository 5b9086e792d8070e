/-
A path that ends with another one at a component boundary.
-/
namespace CrossIndex.Path

/-- The bytes of a path text. -/
def bytes (path : String) : List UInt8 :=
  path.toUTF8.data.toList

/-- The byte that separates names. -/
def slashByte : UInt8 := 0x2F

/-- Whether a known path is the wanted one, or ends with it, byte for byte, after a slash. -/
def endsAt (known wanted : String) : Bool :=
  known == wanted ||
    ((bytes wanted).length < (bytes known).length && (bytes wanted).isSuffixOf (bytes known) &&
      (bytes known)[(bytes known).length - (bytes wanted).length - 1]? == some slashByte)

end CrossIndex.Path
