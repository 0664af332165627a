import CssResources.Number.Binary64
import CssResources.Text.Basic

/-!
# Numerals

The texts that are read as numbers: an optional sign, then either digits with an
optional point and an optional power of ten (`12`, `.5`, `5.`, `1e-3`), or the words
`inf`, `infinity` and `nan` in any case. There are no separators, blanks or other
bases. `CssResources.Binary64.ofText?` is the number nearest to what is written.
-/

namespace CssResources

/-- **A decimal numeral without its sign**: its digits read as one natural number, and
the power of ten that this is multiplied by. -/
structure Numeral where
  /-- The digits before and after the point, as one number. -/
  digits : Nat
  /-- The power of ten. -/
  exponent : Int
  deriving DecidableEq, Repr

/-- The natural number that decimal digits write. -/
def natOfDigits (t : Text) : Nat := t.foldl (fun n c => 10 * n + (c.toNat - '0'.toNat)) 0

/-- A sign in front of a text, and the text after it; without one the sign is plus. -/
def splitSign : Text → Bool × Text
  | '-' :: t => (true, t)
  | '+' :: t => (false, t)
  | t => (false, t)

/-- An integer with an optional sign, whose digits are read by a given function. -/
def signed? (magnitude : Text → Nat) (t : Text) : Option Int :=
  let (negative, digits) := splitSign t
  if digits.isEmpty || !digits.all Char.isDigit then none
  else some (if negative then -(magnitude digits : Int) else magnitude digits)

/-- An integer with an optional sign. -/
def integer? (t : Text) : Option Int := signed? natOfDigits t

/-- The size from which the digits of a power of ten are no longer counted. -/
def exponentLimit : Nat := 65536

/-- The natural number that the digits of a power of ten write, up to the digit with which
it reaches `exponentLimit`: a power of any length is read as one of moderate size. -/
def exponentOfDigits (t : Text) : Nat :=
  t.foldl (fun n c => if n < exponentLimit then 10 * n + (c.toNat - '0'.toNat) else n) 0

/-- The power of ten after the digits: none written, or `e` and an integer. -/
def exponent? : Text → Option Int
  | [] => some 0
  | c :: t => if c = 'e' ∨ c = 'E' then signed? exponentOfDigits t else none

namespace Numeral

/-- **Reads a decimal numeral.** There is a digit before or after the point. -/
def ofText? (t : Text) : Option Numeral :=
  let whole := t.takeWhile Char.isDigit
  let (fraction, rest) :=
    match t.dropWhile Char.isDigit with
    | '.' :: r => (r.takeWhile Char.isDigit, r.dropWhile Char.isDigit)
    | r => ([], r)
  if whole.isEmpty && fraction.isEmpty then none
  else (exponent? rest).map fun e => ⟨natOfDigits (whole ++ fraction), e - fraction.length⟩

/-- **The number nearest to a numeral.** Powers of ten far outside the range of finite
numbers are not computed: they give an infinity or zero whatever the digits. -/
def toBinary64 (negative : Bool) (n : Numeral) : Binary64 :=
  if n.digits = 0 then .finite negative 0
  else if 400 < n.exponent then .infinite negative
  else if n.exponent < -(400 + n.digits.log2 : Int) then .finite negative 0
  else .nearest negative (n.digits * Nat.pow 10 n.exponent.toNat) (Nat.pow 10 (-n.exponent).toNat)

end Numeral

/-- **Reads a number.** -/
def Binary64.ofText? (t : Text) : Option Binary64 :=
  let (negative, body) := splitSign t
  let word := lowerAscii body
  if word = "inf".toList ∨ word = "infinity".toList then some (.infinite negative)
  else if word = "nan".toList then some .nan
  else (Numeral.ofText? body).map (·.toBinary64 negative)

end CssResources
