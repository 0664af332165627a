import CssResources.Number.Numeral

/-!
# Positional decimals

A number is written in positional notation: digits, and a point before the decimal
places if there are any. Of the decimals that read back as the number, the one with
the **fewest places** is written, the nearest to the number if there are two, and the
greater if both are equally near. Below `2 ^ 53` this is also the decimal with the
fewest digits, as there every whole number is a number of its own.
-/

namespace CssResources

/-- The decimal digits of a natural number. -/
def natText (n : Nat) : Text := Nat.toDigits 10 n

/-- An integer in decimal digits. -/
def intText : Int → Text
  | .ofNat n => natText n
  | .negSucc n => '-' :: natText (n + 1)

/-- The digits of `n`, with zeros in front up to `width` digits. -/
def natTextPadded (width n : Nat) : Text := (natText n).leftpad width '0'

/-- **A decimal in positional notation**: `n` divided by the power of ten of its places. -/
def positional (n places : Nat) : Text :=
  if places = 0 then natText n
  else natText (n / Nat.pow 10 places) ++ '.' :: natTextPadded places (n % Nat.pow 10 places)

namespace Binary64

/-- The decimal of `n` with so many places reads back as the magnitude. -/
def readsBack (units n places : Nat) : Bool :=
  nearest false n (Nat.pow 10 places) == finite false units

/-- The decimal with so many places that reads back as the magnitude: of its two
neighbours that do, the nearer, and the greater of two equally near. -/
def decimalWith? (units places : Nat) : Option Nat :=
  let low := units * Nat.pow 10 places / one
  let rest := units * Nat.pow 10 places % one
  if readsBack units low places && (2 * rest < one || !readsBack units (low + 1) places) then
    some low
  else if readsBack units (low + 1) places then some (low + 1)
  else none

/-- **The decimal with the fewest places that reads back as the magnitude**, with the
number of its places. A magnitude has no more places than a unit, which has 1074. -/
def shortest (units : Nat) : Nat × Nat :=
  ((List.range 1075).findSome? fun places =>
    (decimalWith? units places).map fun n => (n, places)).getD (0, 0)

/-- **The text of a number**: its shortest decimal without a power of ten, with the sign
of a negative number or zero. -/
def toText : Binary64 → Text
  | nan => "NaN".toList
  | infinite negative => if negative then "-inf".toList else "inf".toList
  | finite negative units =>
    let (n, places) := shortest units
    if negative then '-' :: positional n places else positional n places

end Binary64

end CssResources
