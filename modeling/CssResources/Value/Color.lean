import CssResources.Number.Hexadecimal
import CssResources.Number.Numeral
import CssResources.Text.Uppercase

/-!
# Colors

A color is written as hexadecimal digits after `#`, one or two for each channel, or as
`rgb(…)` or `rgba(…)` with numbers or percentages. Android writes the opacity first and
leaves it out when the color is opaque: `CssResources.Color.hex`.

Names of colors are not looked up. `CssResources.colorLiteral?` lets them stand in upper
case, as it does hexadecimal digits.
-/

namespace CssResources

/-- **A color**: red, green, blue and opacity, each from 0 to 255. -/
structure Color where
  /-- The red channel. -/
  red : UInt8
  /-- The green channel. -/
  green : UInt8
  /-- The blue channel. -/
  blue : UInt8
  /-- The opacity. -/
  alpha : UInt8
  deriving DecidableEq, Repr

/-! ### Hexadecimal digits -/

/-- The hexadecimal digit of a number below 16, in upper case. -/
def hexDigit (n : Nat) : Char := Char.ofNat (if n < 10 then '0'.toNat + n else 'A'.toNat + (n - 10))

/-- The two hexadecimal digits of a byte. -/
def hexByte (b : UInt8) : Text := [hexDigit (b.toNat / 16), hexDigit (b.toNat % 16)]

/-- The byte of two hexadecimal values. -/
def byteOfHex (high low : Nat) : UInt8 := UInt8.ofNat (16 * high + low)

namespace Color

/-- **The Android literal of a color**: `#RRGGBB` if it is opaque, else `#AARRGGBB`. -/
def hex (c : Color) : Text :=
  '#' :: ((if c.alpha = 255 then [] else hexByte c.alpha)
    ++ hexByte c.red ++ hexByte c.green ++ hexByte c.blue)

/-- The color of hexadecimal digits: three or six without an opacity, four or eight with
one. A single digit stands for itself twice. -/
def ofHex? (t : Text) : Option Color :=
  match t.mapM hexValue? with
  | some [r, g, b] => some ⟨byteOfHex r r, byteOfHex g g, byteOfHex b b, 255⟩
  | some [r, g, b, a] => some ⟨byteOfHex r r, byteOfHex g g, byteOfHex b b, byteOfHex a a⟩
  | some [r, r', g, g', b, b'] => some ⟨byteOfHex r r', byteOfHex g g', byteOfHex b b', 255⟩
  | some [r, r', g, g', b, b', a, a'] =>
    some ⟨byteOfHex r r', byteOfHex g g', byteOfHex b b', byteOfHex a a'⟩
  | _ => none

/-! ### Functions -/

/-- A channel: a number, or a percentage of 255. -/
def channel? (t : Text) : Option UInt8 :=
  match beforeEnd? ['%'] t with
  | some number => (Binary64.ofText? number).map fun x => ((x.scale 255 1).scale 1 100).toByte
  | none => (Binary64.ofText? t).map Binary64.toByte

/-- The opacity: a number from 0 to 1, or a percentage. -/
def alpha? (t : Text) : Option UInt8 :=
  match beforeEnd? ['%'] t with
  | some number =>
    (Binary64.ofText? number).map fun x => (((x.scale 1 100).clamp 1).scale 255 1).toByte
  | none => (Binary64.ofText? t).map fun x => ((x.clamp 1).scale 255 1).toByte

/-- The color of the arguments of a function: three channels, and an opacity if there is
a fourth. Commas, slashes and blanks separate them alike. -/
def ofArguments? (arguments : Text) : Option Color :=
  match splitWords (fun c => c == ',' || c == '/' || isBlank c) arguments with
  | [r, g, b] => do return ⟨← channel? r, ← channel? g, ← channel? b, 255⟩
  | [r, g, b, a] => do return ⟨← channel? r, ← channel? g, ← channel? b, ← alpha? a⟩
  | _ => none

/-- The arguments of a color function in lower case, with what follows them. -/
def afterFunctionName? (t : Text) : Option Text :=
  (afterStart? "rgba(".toList t).or (afterStart? "rgb(".toList t)

/-- **Reads a color** from hexadecimal digits or a function. -/
def ofText? (value : Text) : Option Color :=
  match trim value with
  | '#' :: digits => ofHex? digits
  | t => do
    let arguments ← beforeEnd? [')'] (← afterFunctionName? (lowerAscii t))
    ofArguments? arguments

end Color

/-- The value calls a color function, whatever its arguments. -/
def isColorFunction (value : Text) : Bool :=
  (Color.afterFunctionName? (lowerAscii (trim value))).isSome

/-- The Android literal of a value that is a color. -/
def colorHex? (value : Text) : Option Text := (Color.ofText? value).map Color.hex

/-- A word of ASCII letters, digits and dashes that begins with a letter. -/
def isColorWord (t : Text) : Bool :=
  t.head?.any Char.isAlpha && t.all fun c => c.isAlphanum || c == '-'

/-- **The literal of a value that reads as a color**: hexadecimal digits and words stand
in upper case as they are written, functions are converted. -/
def colorLiteral? (value : Text) : Option Text :=
  let t := trim value
  match t with
  | '#' :: digits => (Color.ofHex? digits).map fun _ => uppercase t
  | _ =>
    if isColorFunction t then colorHex? t
    else if isColorWord t then some (uppercase t)
    else none

end CssResources
