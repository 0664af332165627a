/-!
# Binary floating-point numbers, exactly

Values are read and scaled as 64-bit binary floating-point numbers. Every finite one
is a whole number of units of `2 ^ -1074`, the least positive one, so a sign and a
natural number describe it completely: no operation here leaves the naturals.

**Rounding is one function**, `CssResources.Binary64.nearest`: the number closest to a
quotient, of two equally close ones the one with the even mantissa, and an infinity
past the largest. Reading a numeral, multiplying and dividing are all exact quotients
followed by this one step.
-/

namespace CssResources

/-- **A 64-bit binary floating-point number.** -/
inductive Binary64 where
  /-- Not a number. -/
  | nan
  /-- An infinity, with its sign. -/
  | infinite (negative : Bool)
  /-- A sign and a number of units of `2 ^ -1074`. Zero has both signs. -/
  | finite (negative : Bool) (units : Nat)
  deriving DecidableEq, Repr

namespace Binary64

/-- The units of the number one. -/
def one : Nat := Nat.pow 2 1074

/-- The units of the least power of two past the largest finite number. -/
def bound : Nat := Nat.pow 2 2098

/-- The bits of a mantissa after its first. -/
def fractionBits : Nat := 52

/-! ### Rounding -/

/-- **The natural number nearest to a quotient**, the even one of two equally near. -/
def roundHalfEven (num den : Nat) : Nat :=
  let low := num / den
  let rest := num % den
  if 2 * rest < den then low
  else if den < 2 * rest then low + 1
  else low + low % 2

/-- **The number nearest to a quotient.** Numbers of the size of the quotient are
multiples of a power of two, which leaves a mantissa of 53 bits at most; the quotient
is rounded to such a multiple, and is infinite if that is past the largest. -/
def nearest (negative : Bool) (num den : Nat) : Binary64 :=
  let quantum := Nat.pow 2 ((num * one / den).log2 - fractionBits)
  let units := roundHalfEven (num * one) (den * quantum) * quantum
  if units < bound then finite negative units else infinite negative

/-- The number times a quotient of naturals, rounded once. -/
def scale (x : Binary64) (num den : Nat) : Binary64 :=
  match x with
  | nan => nan
  | infinite negative => infinite negative
  | finite negative units => nearest negative (units * num) (one * den)

/-- The number, or the end of the range from zero to `top` that it lies beyond. A zero
of either sign is in the range. -/
def clamp (top : Nat) : Binary64 → Binary64
  | nan => nan
  | infinite true => finite false 0
  | infinite false => finite false (top * one)
  | finite negative units =>
    if negative && units != 0 then finite false 0
    else if top * one < units then finite false (top * one)
    else finite negative units

/-- The number lies in the range from zero to `top`. -/
def isBetweenZeroAnd (top : Nat) : Binary64 → Bool
  | finite negative units => (!negative || units == 0) && units ≤ top * one
  | _ => false

/-- The number is finite. -/
def isFinite : Binary64 → Bool
  | finite _ _ => true
  | _ => false

/-! ### Whole numbers -/

/-- The whole number a magnitude reaches: its fraction is dropped. -/
def truncUnits (units : Nat) : Nat := units / one

/-- The whole number nearest to a magnitude, the greater of two equally near. -/
def roundUnits (units : Nat) : Nat := (2 * units + one) / (2 * one)

/-- An integer, or the end of the signed 64-bit range that it lies beyond. -/
def clampInt64 (n : Int) : Int := max Int64.minValue.toInt (min n Int64.maxValue.toInt)

/-- The signed 64-bit integer of a number whose magnitude is made whole by `whole`. -/
def toInt64 (whole : Nat → Nat) : Binary64 → Int
  | nan => 0
  | infinite true => Int64.minValue.toInt
  | infinite false => Int64.maxValue.toInt
  | finite negative units =>
    clampInt64 (if negative then -(whole units : Int) else whole units)

/-- The integer left when the fraction is dropped. -/
def truncate (x : Binary64) : Int := x.toInt64 truncUnits

/-- **The nearest integer**, the one further from zero of two equally near. -/
def round (x : Binary64) : Int := x.toInt64 roundUnits

/-- The nearest number from 0 to 255; what is no number counts as zero. -/
def toByte : Binary64 → UInt8
  | nan => 0
  | infinite negative => if negative then 0 else 255
  | finite negative units => if negative then 0 else UInt8.ofNat (min (roundUnits units) 255)

end Binary64

end CssResources
