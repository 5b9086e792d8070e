/-
Integers in decimal: the fewest digits, after a minus sign when negative.
-/
namespace CrossIndex.Text

/-- The decimal digits of a number. -/
def decimalChars (n : Nat) : List Char :=
  if n < 10 then [Char.ofNat (0x30 + n)]
  else decimalChars (n / 10) ++ [Char.ofNat (0x30 + n % 10)]
termination_by n

/-- The decimal characters of an integer. -/
def integerChars (i : Int) : List Char :=
  if i < 0 then '-' :: decimalChars i.natAbs else decimalChars i.natAbs

/-- An integer in decimal. -/
def decimal (i : Int) : String :=
  String.ofList (integerChars i)

/-- The number that decimal digits write. -/
def ofDigits (ds : List Char) : Nat :=
  ds.foldl (fun n d => n * 10 + (d.toNat - 0x30)) 0

end CrossIndex.Text
