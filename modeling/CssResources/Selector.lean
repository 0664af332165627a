import CssResources.ResourceName

/-!
# Selectors

A style stands for one class or for one kind of element, so a selector is convertible if
it is a class name with its dot, or an element's name; `:root` holds custom properties
and has no style. Everything else is rejected, with the first cause found:
a character that marks a feature without counterpart, a second class, or a name that is
no identifier.
-/

namespace CssResources

/-- **Why a selector is rejected.** -/
inductive Rejection where
  /-- Blanks between its parts. -/
  | descendant
  /-- A combinator `>`, `+` or `~`. -/
  | combinator
  /-- A test of attributes. -/
  | attributeTest
  /-- A pseudo-class or pseudo-element. -/
  | pseudo
  /-- An identity. -/
  | identity
  /-- The universal selector. -/
  | universal
  /-- Another character with a meaning of its own. -/
  | unsupportedSyntax
  /-- More than one part without a combinator. -/
  | compound
  /-- A class whose name is no identifier. -/
  | invalidClassName
  /-- Neither a class nor an identifier. -/
  | invalid
  deriving DecidableEq, Repr

/-- The wording of a rejection. -/
def Rejection.reason : Rejection → Text
  | descendant => "descendant combinator".toList
  | combinator => "combinator".toList
  | attributeTest => "attribute selector".toList
  | pseudo => "pseudo-class or pseudo-element".toList
  | identity => "id selector".toList
  | universal => "universal selector".toList
  | unsupportedSyntax => "unsupported syntax".toList
  | compound => "compound selector".toList
  | invalidClassName => "invalid class name".toList
  | invalid => "invalid selector".toList

/-- **A selector**, by what it stands for. -/
inductive Selector where
  /-- The elements of a class. -/
  | className (name : Text)
  /-- The elements of a kind. -/
  | element (name : Text)
  /-- The root of the document, which holds custom properties. -/
  | root
  /-- None of these. -/
  | rejected (cause : Rejection)
  deriving DecidableEq, Repr

namespace Selector

/-- The cause of rejection that a character is. -/
def rejectionOf (c : Char) : Option Rejection :=
  if isBlank c then some .descendant
  else if c = '>' ∨ c = '+' ∨ c = '~' then some .combinator
  else if c = '[' ∨ c = ']' then some .attributeTest
  else if c = ':' then some .pseudo
  else if c = '#' then some .identity
  else if c = '*' then some .universal
  else if c = '&' ∨ c = '(' ∨ c = ')' ∨ c = ',' ∨ c = '|' then some .unsupportedSyntax
  else none

/-- A character that an identifier may begin with. -/
def isIdentifierStart (c : Char) : Bool := c.isAlpha || c == '_' || c == '-'

/-- A character that an identifier may go on with. -/
def isIdentifierChar (c : Char) : Bool := c.isAlphanum || c == '-' || c == '_'

/-- An identifier: a letter, an underscore or a dash, and letters, digits and these. -/
def isIdentifier : Text → Bool
  | [] => false
  | c :: t => isIdentifierStart c && t.all isIdentifierChar

/-- The selector of a text without blanks at its ends. -/
def ofTrimmed (t : Text) : Selector :=
  if t = ":root".toList then root
  else
    match t.findSome? rejectionOf with
    | some cause => rejected cause
    | none =>
      match t with
      | '.' :: name =>
        if name.contains '.' then rejected .compound
        else if isIdentifier name then className name
        else rejected .invalidClassName
      | _ =>
        if t.contains '.' then rejected .compound
        else if (t.head?.any Char.isAlpha) && isIdentifier t then element t
        else rejected .invalid

/-- **Reads a selector.** -/
def ofText (t : Text) : Selector := ofTrimmed (trim t)

/-- **The name of the style of a selector**: a class keeps its name, an element's name
gets a capital. -/
def styleName? : Selector → Option Text
  | className name => some (resourceName name)
  | element name => some (capitalizeFirst (resourceName name))
  | root => none
  | rejected _ => none

end Selector

end CssResources
