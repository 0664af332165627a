import CssResources.Proofs.OrderedMap
import CssResources.Session

/-!
# What a stylesheet means in styles

`CssResources.gather` walks through the rules once and keeps what it needs in tables that it
writes over. This file says what the styles are **without a walk and without a state**, from
the rules alone.

| notion | definition |
|---|---|
| the declarations in source order, each with its rule | `CssResources.sitesOf` |
| what is defined before a declaration | `CssResources.definitionsAfter` |
| the items of a declaration, if it is successful | `CssResources.Declaration.items?` |
| the successful translations, in source order | `CssResources.translationsOf` |
| those that go to a style | `CssResources.translationsTo` |
| the styles | `CssResources.meaningOf` |

A style has the name of a selector, with what every name begins with. Its items are those
of the **last** successful translation of each property, in the order of the **first** one
of each. A value is resolved against the definitions that come before its declaration in the
source, in whatever rule they stand, and against the predefined ones.
-/

namespace CssResources

/-! ### Declarations in source order -/

/-- A declaration, and the rule that it stands in. -/
abbrev Site := Rule × Declaration

/-- **The declarations of rules in source order**, each with its rule. -/
def sitesOf (rs : List Rule) : List Site := rs.flatMap fun r => r.declarations.map (r, ·)

/-- The names of the styles that the selectors of a rule stand for. -/
def Rule.styleNames (options : Options) (r : Rule) : List Text :=
  r.selectors.filterMap options.styleName?

/-! ### Definitions -/

/-- The predefined custom properties, by their names without dashes. -/
def Options.definitions (options : Options) : List (Text × Text) :=
  options.predefined.entries.map fun e => (bareName e.1, e.2)

/-- The custom property that a declaration defines, and its value. -/
def Declaration.definition? (d : Declaration) : Option (Text × Text) :=
  d.customName?.map fun name => (name, stripImportant d.value)

/-- **What is defined after some declarations**, the predefined properties first. -/
def definitionsAfter (options : Options) (before : List Site) : List (Text × Text) :=
  options.definitions ++ before.filterMap fun site => site.2.definition?

/-! ### Successful declarations -/

/-- **The items of a declaration that comes after others**, if it is successful: its property
has a counterpart, its value resolved has no token that no attribute can take, and what the
value is translated to is an item or more. -/
def Declaration.items? (options : Options) (before : List Site) (d : Declaration) :
    Option (List Item) :=
  let lookup := fun name => lastValue? name (definitionsAfter options before)
  let value := (resolve lookup defaultLimit (stripImportant d.value)).value
  if (Property.ofName? d.property).isNone || hasUnsupportedToken value then none
  else
    match (translate d.property value).items with
    | [] => none
    | items => some items

/-- The successful translations of declarations that come after others, in order: the rule
of each, its property, and its items. -/
def translationsAfter (options : Options) (before : List Site) :
    List Site → List (Rule × Text × List Item)
  | [] => []
  | site :: sites =>
    ((site.2.items? options before).map fun items => (site.1, site.2.property, items)).toList
      ++ translationsAfter options (before ++ [site]) sites

/-- **The successful translations of declarations.** -/
def translationsOf (options : Options) (sites : List Site) : List (Rule × Text × List Item) :=
  translationsAfter options [] sites

/-- **The successful translations that go to a style**: those of the rules that have a
selector with its name. -/
def translationsTo (options : Options) (name : Text) (sites : List Site) :
    List (Text × List Item) :=
  ((translationsOf options sites).filter fun w => name ∈ w.1.styleNames options).map Prod.snd

/-! ### Styles -/

/-- **The style of a name**: the items of the last translation of each property, in the order
of the first. -/
def styleMeaning (options : Options) (sites : List Site) (name : Text) : Style :=
  let translations := translationsTo options name sites
  { name
    items := (translations.map Prod.fst).eraseDups.flatMap fun property =>
      (lastValue? property translations).getD [] }

/-- **The styles of rules**, one for each name, in the order in which the names come. -/
def meaningOf (options : Options) (rs : List Rule) : List Style :=
  (rs.flatMap (Rule.styleNames options)).eraseDups.map (styleMeaning options (sitesOf rs))

end CssResources
