import CssResources.Error
import CssResources.Json.Reading
import CssResources.Options
import CssResources.Toml.Reading

/-!
# Configurations

A configuration is a file in JSON or TOML, as its name says. It may set the mode, what the
names of styles begin with, custom properties, and whether details are wanted. What it
does not know it passes over; what it knows has to have the right form.
-/

namespace CssResources

/-- **What a configuration sets.** -/
structure Config where
  /-- The mode. -/
  mode? : Option Mode := none
  /-- What every style's name begins with. -/
  stylePrefix? : Option Text := none
  /-- Custom properties, in the order in which they are taken. -/
  predefined? : Option (List (Text × Text)) := none
  /-- Details are wanted. -/
  debug? : Option Bool := none
  deriving DecidableEq, Repr

/-- Pairs with the value of the last pair of each name, where its first pair stands. -/
def lastOfEach (ps : List (Text × Text)) : List (Text × Text) :=
  ps.foldl (fun es p => putEntry p.1 p.2 es) []

/-! ### JSON -/

namespace JsonValue

/-- The text of a string that has one. -/
def text? : JsonValue → Option Text
  | string t? => t?
  | _ => none

/-- A truth value. -/
def boolean? : JsonValue → Option Bool
  | boolean b => some b
  | _ => none

/-- **A mode**: its name, or an object whose one member has this name and nothing for a
value. -/
def mode? : JsonValue → Option Mode
  | string (some name) => Mode.ofName? name
  | object [(some name, null)] => Mode.ofName? name
  | _ => none

/-- A member with a text for its value. -/
def textMember? (m : Option Text × JsonValue) : Option (Text × Text) := do
  return (← m.1, ← m.2.text?)

/-- An object of texts. -/
def texts? : JsonValue → Option (List (Text × Text))
  | object ms => (ms.mapM textMember?).map lastOfEach
  | _ => none

/-- A value that may be left out by `null`. -/
def orNull? {α : Type} (read : JsonValue → Option α) : JsonValue → Option (Option α)
  | null => some none
  | v => (read v).map some

/-- The value of a member that is there at most once. -/
def member? {α : Type} (read : JsonValue → Option α) (name : Text)
    (ms : List (Text × JsonValue)) : Option (Option α) :=
  match ms.filter (·.1 = name) with
  | [] => some none
  | [m] => orNull? read m.2
  | _ => none

/-- **The configuration of a JSON value**: an object with the settings by name, or an array
of all four. -/
def config? : JsonValue → Option Config
  | object ms => do
    let ms ← ms.mapM fun m => m.1.map fun name => (name, m.2)
    return {
      mode? := ← member? mode? "mode".toList ms
      stylePrefix? := ← member? text? "style_prefix".toList ms
      predefined? := ← member? texts? "custom_variables".toList ms
      debug? := ← member? boolean? "debug".toList ms }
  | array [mode, stylePrefix, predefined, debug] => do
    return {
      mode? := ← orNull? mode? mode
      stylePrefix? := ← orNull? text? stylePrefix
      predefined? := ← orNull? texts? predefined
      debug? := ← orNull? boolean? debug }
  | _ => none

end JsonValue

/-! ### TOML -/

namespace TomlValue

/-- The entries of a table of either kind. -/
def entries? : TomlValue → Option TomlEntries
  | inlineTable es => some es
  | table _ es => some es
  | _ => none

/-- A text. -/
def text? : TomlValue → Option Text
  | string t => some t
  | _ => none

/-- A truth value. -/
def boolean? : TomlValue → Option Bool
  | boolean b => some b
  | _ => none

/-- An array or a table with nothing in it. -/
def isEmptyContainer : TomlValue → Bool
  | array items => items.isEmpty
  | inlineTable es => es.isEmpty
  | table _ es => es.isEmpty
  | _ => false

/-- **A mode**: its name, or a table whose one entry has this name and holds nothing. -/
def mode? (v : TomlValue) : Option Mode :=
  match v.text? with
  | some name => Mode.ofName? name
  | none =>
    match v.entries? with
    | some [(name, value)] => if value.isEmptyContainer then Mode.ofName? name else none
    | _ => none

/-- The name under which a date or a time holds its text where a table is wanted. -/
def momentName : Text := "$__toml_private_datetime".toList

/-- **A table of texts.** A date or a time counts as a table of one text, its own. -/
def texts? (v : TomlValue) : Option (List (Text × Text)) :=
  match v with
  | moment written => some [(momentName, written)]
  | _ => do (← v.entries?).mapM fun e => e.2.text?.map fun t => (e.1, t)

/-- The value of an entry that may be missing. -/
def entry? {α : Type} (read : TomlValue → Option α) (name : Text) (es : TomlEntries) :
    Option (Option α) :=
  match es.lookup name with
  | some v => (read v).map some
  | none => some none

/-- **The configuration of a document.** -/
def config? (es : TomlEntries) : Option Config := do
  return {
    mode? := ← entry? mode? "mode".toList es
    stylePrefix? := ← entry? text? "style_prefix".toList es
    predefined? := ← entry? texts? "custom_variables".toList es
    debug? := ← entry? boolean? "debug".toList es }

end TomlValue

/-! ### Files -/

namespace Config

/-- **The configuration of a file's text**, by the end of the file's name. -/
def ofText (path t : Text) : Except FormatFault Config :=
  if (beforeEnd? ".json".toList path).isSome then
    match (JsonValue.ofText? t).bind JsonValue.config? with
    | some c => .ok c
    | none => .error .json
  else if (beforeEnd? ".toml".toList path).isSome then
    match (TomlValue.document? t).bind TomlValue.config? with
    | some c => .ok c
    | none => .error .toml
  else .error .configurationName

end Config

end CssResources
