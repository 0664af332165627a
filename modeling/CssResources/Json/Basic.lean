import CssResources.Text.Basic

/-!
# JSON values

A JSON value as it is written: an object keeps its members in order, also those with the
same name. Escapes can write halves of a character that do not belong together; the text
of such a string does not exist, but the string may stand where no one asks for it.
-/

namespace CssResources

/-- **A JSON value.** -/
inductive JsonValue where
  /-- The word `null`. -/
  | null
  /-- A truth value. -/
  | boolean (b : Bool)
  /-- A number, as it is written. -/
  | number (written : Text)
  /-- A string, if it has a text. -/
  | string (text? : Option Text)
  /-- An array. -/
  | array (items : List JsonValue)
  /-- An object, by its members in order. -/
  | object (members : List (Option Text × JsonValue))
  deriving Inhabited

end CssResources
