import CssResources.Number.Hexadecimal
import CssResources.Number.Numeral
import CssResources.Toml.Basic

/-!
# Words of TOML

Truth values, numbers, dates and times are words: nothing that may stand in one can
follow it. A word is taken whole and then read (`CssResources.TomlValue.ofWord?`).
-/

namespace CssResources

namespace TomlValue

/-! ### Numbers -/

/-- Digits of a kind, with single underscores between them. -/
def isDigitRun (p : Char → Bool) : Text → Bool
  | [] => false
  | [c] => p c
  | c :: '_' :: t => p c && isDigitRun p t
  | c :: t => p c && isDigitRun p t

/-- The text without its underscores. -/
def dropUnderscores (t : Text) : Text := t.filter (· ≠ '_')

/-- The digits of a number without a sign: no zero stands in front of others. -/
def isWhole : Text → Bool
  | ['0'] => true
  | '0' :: _ => false
  | t => isDigitRun Char.isDigit t

/-- The integers that have a place: those of 64 bits with a sign. -/
def inRange (n : Int) : Bool := Int64.minValue.toInt ≤ n && n ≤ Int64.maxValue.toInt

/-- The number that digits of a base write. -/
def ofBase? (base : Nat) (t : Text) : Option Nat := do
  let ds ← (dropUnderscores t).mapM hexValue?
  if isDigitRun Char.isAlphanum t && ds.all (· < base) then
    some (ds.foldl (fun n d => base * n + d) 0)
  else none

/-- An integer: in decimal digits with an optional sign, or in another base without
one. -/
def integer? : Text → Option Int
  | '0' :: 'x' :: t => (ofBase? 16 t).map Int.ofNat
  | '0' :: 'o' :: t => (ofBase? 8 t).map Int.ofNat
  | '0' :: 'b' :: t => (ofBase? 2 t).map Int.ofNat
  | t =>
    let (negative, digits) := splitSign t
    if isWhole digits then
      let n := (natOfDigits (dropUnderscores digits) : Int)
      some (if negative then -n else n)
    else none

/-- The power of ten of a number: `e`, a sign, and digits. -/
def isPower : Text → Bool
  | e :: t => (e == 'e' || e == 'E') && isDigitRun Char.isDigit (splitSign t).2
  | [] => false

/-- A character of a run of digits. -/
def isRunChar (c : Char) : Bool := c.isDigit || c == '_'

/-- What follows the whole part of a number: a point with digits, a power of ten, or
both. -/
def isFloatTail : Text → Bool
  | '.' :: t =>
    let rest := t.dropWhile isRunChar
    isDigitRun Char.isDigit (t.takeWhile isRunChar) && (rest.isEmpty || isPower rest)
  | t => isPower t

/-- A number with a fraction or a power of ten, or a word for what is no finite number.
One past the largest finite number is none. -/
def isFloat (t : Text) : Bool :=
  let body := (splitSign t).2
  body == "inf".toList || body == "nan".toList ||
    (isWhole (body.takeWhile isRunChar) && isFloatTail (body.dropWhile isRunChar)
      && Binary64.ofText? (dropUnderscores t) != some (.infinite false))

/-! ### Dates and times -/

/-- Two digits at the start of a text, as a number. -/
def twoDigits? : Text → Option (Nat × Text)
  | a :: b :: t => if a.isDigit && b.isDigit then some (natOfDigits [a, b], t) else none
  | _ => none

/-- The text after its first character, which is given. -/
def after? (c : Char) : Text → Option Text
  | [] => none
  | x :: t => if x = c then some t else none

/-- The year has a 29th of February. -/
def isLeapYear (year : Nat) : Bool := year % 4 == 0 && (year % 100 != 0 || year % 400 == 0)

/-- The days of a month. -/
def daysIn (year month : Nat) : Nat :=
  if month = 2 then (if isLeapYear year then 29 else 28)
  else if month = 4 ∨ month = 6 ∨ month = 9 ∨ month = 11 then 30
  else 31

/-- What follows a date at the start of a text. -/
def afterDate? (t : Text) : Option Text := do
  let (century, t) ← twoDigits? t
  let (year, t) ← twoDigits? t
  let (month, t) ← twoDigits? (← after? '-' t)
  let (day, t) ← twoDigits? (← after? '-' t)
  if 1 ≤ month && month ≤ 12 && 1 ≤ day && day ≤ daysIn (100 * century + year) month then some t
  else none

/-- What follows a time at the start of a text, with or without a part of a second. A
minute may have a second more. -/
def afterTime? (t : Text) : Option Text := do
  let (hour, t) ← twoDigits? t
  let (minute, t) ← twoDigits? (← after? ':' t)
  let (second, t) ← twoDigits? (← after? ':' t)
  if hour ≤ 23 && minute ≤ 59 && second ≤ 60 then
    match t with
    | '.' :: r =>
      if (r.takeWhile Char.isDigit).isEmpty then none else some (r.dropWhile Char.isDigit)
    | _ => some t
  else none

/-- The text is an offset from the time of Greenwich: `Z`, or a sign with hours and
minutes. -/
def isOffset : Text → Bool
  | ['Z'] => true
  | ['z'] => true
  | sign :: t =>
    (sign == '+' || sign == '-') &&
      match twoDigits? t with
      | some (hour, ':' :: r) =>
        match twoDigits? r with
        | some (minute, []) => hour ≤ 23 && minute ≤ 59
        | _ => false
      | _ => false
  | [] => false

/-- **A date, a time, or both.** A date and a time have a `T` or a space between them and
may have an offset. -/
def isMoment (t : Text) : Bool :=
  match afterDate? t with
  | some [] => true
  | some (c :: r) =>
    (c == 'T' || c == 't' || c == ' ') &&
      match afterTime? r with
      | some rest => rest.isEmpty || isOffset rest
      | none => false
  | none => afterTime? t == some []

/-! ### Words -/

/-- A character of a word. -/
def isWordChar (c : Char) : Bool :=
  c.isAlphanum || c == '+' || c == '-' || c == '.' || c == '_' || c == ':'

/-- **The value of a word.** -/
def ofWord? (word : Text) : Option TomlValue :=
  if word = "true".toList then some (.boolean true)
  else if word = "false".toList then some (.boolean false)
  else if isMoment word then some (.moment word)
  else if isFloat word then some (.float word)
  else
    match integer? word with
    | some n => if inRange n then some (.integer n) else none
    | none => none

end TomlValue

end CssResources
