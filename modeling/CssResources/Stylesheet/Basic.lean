import CssResources.Text.Basic

/-!
# Stylesheets

A stylesheet is read as a list of rules. A rule gives declarations to the elements that
its selectors name; declarations that stand outside every block form rules without
selectors, which is how custom properties may be defined at the top level.
-/

namespace CssResources

/-- **A pair of property and value**, with the line of its first character. -/
structure Declaration where
  /-- The property's name, in lower case unless it is a custom property. -/
  property : Text
  /-- The value as written, without blanks at its ends. -/
  value : Text
  /-- The line of the property's first character. -/
  line : Nat
  deriving DecidableEq, Repr

namespace Declaration

/-- The name of the custom property that the declaration defines, without its two
dashes; nothing if it declares an ordinary property. -/
def customName? (d : Declaration) : Option Text := afterStart? "--".toList d.property

/-- The characters of a property's name. -/
def isNameChar (c : Char) : Bool := c.isAlphanum || c == '-' || c == '_'

/-- The name of a property: that of a custom property keeps its case. -/
def canonicalName (name : Text) : Text :=
  if (afterStart? "--".toList name).isSome then name else lowerAscii name

/-- **Reads a declaration**: a property of name characters, a colon, and a value of one
character or more. The semicolons at the end of the value do not belong to it. -/
def ofText? (line : Nat) (t : Text) : Option Declaration := do
  let (before, after) ← splitOnce? ':' t
  let property := trim before
  let value := trim (trimEndOf ';' (trim after))
  if property.isEmpty || value.isEmpty || !property.all isNameChar then none
  else some { property := canonicalName property, value, line }

end Declaration

/-- **A rule**: declarations, and the selectors that they are for. -/
structure Rule where
  /-- The selectors of the group; none for declarations outside every block. -/
  selectors : List Text
  /-- The declarations in source order. -/
  declarations : List Declaration
  /-- The line of the first selector, or of the first declaration if there is none. -/
  line : Nat
  deriving DecidableEq, Repr

namespace Rule

/-- Rules without selectors that follow each other are one rule. -/
def mergeInto (r : Rule) : List Rule → List Rule
  | [] => [r]
  | s :: rs =>
    if r.selectors.isEmpty && s.selectors.isEmpty then
      { r with declarations := r.declarations ++ s.declarations } :: rs
    else r :: s :: rs

/-- **Merges neighbouring rules without selectors**, each at the line of its first. -/
def mergeLoose (rules : List Rule) : List Rule := rules.foldr mergeInto []

@[simp] theorem mergeLoose_nil : mergeLoose [] = [] := rfl

@[simp] theorem mergeLoose_cons (r : Rule) (rs : List Rule) :
    mergeLoose (r :: rs) = mergeInto r (mergeLoose rs) := rfl

end Rule

end CssResources
