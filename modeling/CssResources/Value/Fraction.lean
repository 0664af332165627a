import CssResources.Number.Positional

/-!
# Weights and opacities

Two values are written as fractions of one. A weight is made from whole percents and has
two places, without a zero in front of the point. An opacity is written as it stands if
it is a number from 0 to 1; given in percent it is written as the shortest decimal of
its hundredth.
-/

namespace CssResources

/-- **The weight of whole percents**: two places, a whole part only if there is one, and
zero for negative percents. -/
def weightText (percent : Int) : Text :=
  let p := percent.toNat
  (if p < 100 then [] else natText (p / 100)) ++ '.' :: natTextPadded 2 (p % 100)

/-- **The text of an opacity**, for a value that is one. -/
def opacityText? (value : Text) : Option Text :=
  let t := trim value
  match beforeEnd? ['%'] t with
  | some number => (Binary64.ofText? (trim number)).map fun x => ((x.clamp 100).scale 1 100).toText
  | none => (Binary64.ofText? t).bind fun x => if x.isBetweenZeroAnd 1 then some t else none

end CssResources
