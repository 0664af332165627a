import CssResources.Text.Basic

/-!
# Hexadecimal digits

Hexadecimal digits are read in either case.
-/

namespace CssResources

/-- The value of a hexadecimal digit in either case. -/
def hexValue? (c : Char) : Option Nat :=
  if c.isDigit then some (c.toNat - '0'.toNat)
  else if 'a' ≤ c ∧ c ≤ 'f' then some (c.toNat - 'a'.toNat + 10)
  else if 'A' ≤ c ∧ c ≤ 'F' then some (c.toNat - 'A'.toNat + 10)
  else none

/-- The number that hexadecimal digits write. -/
def natOfHex? (t : Text) : Option Nat :=
  (t.mapM hexValue?).map fun ds => ds.foldl (fun n d => 16 * n + d) 0

end CssResources
