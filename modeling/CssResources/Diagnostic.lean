import CssResources.Number.Positional

/-!
# Diagnostics

What cannot be converted is reported and left out; conversion itself never fails. A
diagnostic names what was found and, where it belongs to a place in the stylesheet,
the line. `CssResources.Diagnostic.message` is its wording.
-/

namespace CssResources

/-- **A finding about a stylesheet.** -/
inductive Diagnostic where
  /-- A selector that no style can stand for, and why. -/
  | unsupportedSelector (line : Nat) (selector reason : Text)
  /-- An at-rule, by its name without the `@`. -/
  | unsupportedAtRule (line : Nat) (name : Text)
  /-- A value that the property's attribute cannot take. -/
  | unsupportedValue (line : Nat) (property value : Text)
  /-- A shorthand that does not give each side a length. -/
  | malformedShorthand (line : Nat) (property value : Text)
  /-- A value that keeps a reference to a custom property. -/
  | unresolvedVariable (line : Nat) (property value : Text)
  /-- A custom property whose definition leads back to itself. -/
  | variableCycle (name : Text)
  /-- A custom property left unexpanded when the limit of substitutions was reached. -/
  | expansionLimit (name : Text)
  /-- A custom property that was to become a color and is none. -/
  | notAColor (name value : Text)
  deriving DecidableEq, Repr

namespace Diagnostic

/-- The words that open the message of a diagnostic with a line. -/
def atLine (line : Nat) : Text := "line ".toList ++ natText line ++ ": ".toList

/-- **The wording of a diagnostic.** -/
def message : Diagnostic → Text
  | unsupportedSelector line selector reason =>
    atLine line ++ "unsupported selector '".toList ++ selector ++ "' (".toList ++ reason
      ++ ") skipped".toList
  | unsupportedAtRule line name => atLine line ++ "at-rule '@".toList ++ name ++ "' skipped".toList
  | unsupportedValue line property value =>
    atLine line ++ "unsupported value '".toList ++ value ++ "' for '".toList ++ property
      ++ "' skipped".toList
  | malformedShorthand line property value =>
    atLine line ++ "malformed shorthand '".toList ++ property ++ ": ".toList ++ value
      ++ "' skipped".toList
  | unresolvedVariable line property value =>
    atLine line ++ "unresolved variable reference in '".toList ++ property ++ ": ".toList
      ++ value ++ "'".toList
  | variableCycle name => "variable cycle detected through '--".toList ++ name ++ "'".toList
  | expansionLimit name =>
    "expansion of '--".toList ++ name ++ "' stopped after too many substitutions".toList
  | notAColor name value =>
    "custom property '--".toList ++ name ++ "' is not a color ('".toList ++ value
      ++ "'), skipped".toList

end Diagnostic

end CssResources
