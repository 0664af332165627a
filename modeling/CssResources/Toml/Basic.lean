import CssResources.Text.Basic

/-!
# TOML values

A TOML document is a table of named values. How a table came to be decides what may be
added to it later, so a table that is not written out between braces has an origin.
-/

namespace CssResources

/-- **How a table came to be.** -/
inductive TableOrigin where
  /-- It has a header of its own. -/
  | header
  /-- A header of a table within it names it. -/
  | implied
  /-- A dotted key names it. -/
  | dotted
  deriving DecidableEq, Repr

/-- **A TOML value.** -/
inductive TomlValue where
  /-- A string. -/
  | string (t : Text)
  /-- A truth value. -/
  | boolean (b : Bool)
  /-- An integer. -/
  | integer (n : Int)
  /-- A number with a fraction or a power of ten, as it is written. -/
  | float (written : Text)
  /-- A date, a time, or both, as it is written. -/
  | moment (written : Text)
  /-- An array. -/
  | array (items : List TomlValue)
  /-- A table written out between braces; nothing is added to it later. -/
  | inlineTable (entries : List (Text × TomlValue))
  /-- A table that lines of the document fill. -/
  | table (origin : TableOrigin) (entries : List (Text × TomlValue))
  /-- Tables under the same header, by their entries. -/
  | tables (items : List (List (Text × TomlValue)))

/-- The entries of a table. -/
abbrev TomlEntries := List (Text × TomlValue)

end CssResources
