import CssResources.Config.Basic
import CssResources.Variable.Table

/-!
# The arguments of the command line

Arguments are read from left to right. A flag is given alone, a setting with a value; what
is neither is the name of a file, and after `--` everything is. Short flags may share a
dash, and a setting may come last among them, with its value behind it or in the next
argument.

**The first thing that decides ends the reading**: a fault, or the wish for the version or
for help.
-/

namespace CssResources

/-! ### Flags and settings -/

/-- **A flag.** -/
inductive Flag where
  /-- Write colors. -/
  | colors
  /-- Give details of the conversion. -/
  | debug
  /-- Print the statistics. -/
  | stats
  /-- Convert again when the stylesheet changes. A run converts once, with this flag or
  without. -/
  | watch
  /-- Report more; given more than once, still more. -/
  | verbose
  /-- Print the version. -/
  | version
  /-- Print a summary of the command line. -/
  | help
  deriving DecidableEq, Repr

/-- **A setting.** -/
inductive Setting where
  /-- The file of the configuration. -/
  | config
  /-- What every style's name begins with. -/
  | stylePrefix
  /-- A custom property. -/
  | definition
  deriving DecidableEq, Repr

/-- A flag or a setting. -/
inductive Switch where
  /-- A flag. -/
  | flag (f : Flag)
  /-- A setting. -/
  | setting (s : Setting)
  deriving DecidableEq, Repr

namespace Switch

/-- The switch of a long name. -/
def ofLong? (name : Text) : Option Switch :=
  ([("colors".toList, flag .colors), ("debug".toList, flag .debug), ("stats".toList, flag .stats),
    ("watch".toList, flag .watch), ("verbose".toList, flag .verbose),
    ("version".toList, flag .version), ("help".toList, flag .help),
    ("config".toList, setting .config), ("prefix".toList, setting .stylePrefix),
    ("define".toList, setting .definition)] : List (Text × Switch)).lookup name

/-- The switch of a letter. -/
def ofShort? : Char → Option Switch
  | 'd' => some (flag .debug)
  | 'w' => some (flag .watch)
  | 'v' => some (flag .verbose)
  | 'V' => some (flag .version)
  | 'h' => some (flag .help)
  | 'c' => some (setting .config)
  | 'p' => some (setting .stylePrefix)
  | 'D' => some (setting .definition)
  | _ => none

end Switch

/-! ### What is read -/

/-- **The arguments of a conversion.** -/
structure Arguments where
  /-- The path of the stylesheet. -/
  input : Text
  /-- The path of the document. -/
  output : Text
  /-- The path of the configuration. -/
  config? : Option Text
  /-- What every style's name begins with. -/
  stylePrefix? : Option Text
  /-- The definitions of custom properties, in order. -/
  definitions : List Text
  /-- The flags given. -/
  flags : List Flag
  deriving DecidableEq, Repr

/-- **What ends the reading of arguments early.** -/
inductive Ending where
  /-- The version is wanted. -/
  | version
  /-- A summary of the command line is wanted. -/
  | help
  /-- There is no such switch. -/
  | unknownSwitch (argument : Text)
  /-- A switch that is given once is given again. -/
  | repeated
  /-- A flag has a value. -/
  | unexpectedValue
  /-- A setting has none. -/
  | missingValue
  /-- There are more than two files. -/
  | tooManyFiles
  /-- There are fewer. -/
  | missingFiles
  deriving DecidableEq, Repr

/-- **What has been read of the arguments.** -/
structure Draft where
  /-- The files, in order. -/
  files : List Text := []
  /-- The path of the configuration. -/
  config? : Option Text := none
  /-- What every style's name begins with. -/
  stylePrefix? : Option Text := none
  /-- The definitions of custom properties, in order. -/
  definitions : List Text := []
  /-- The flags. -/
  flags : List Flag := []
  deriving DecidableEq, Repr

namespace Draft

/-- Takes in a file. -/
def takeFile (d : Draft) (path : Text) : Except Ending Draft :=
  if d.files.length < 2 then .ok { d with files := d.files ++ [path] } else .error .tooManyFiles

/-- Takes in a flag. -/
def takeFlag (d : Draft) (f : Flag) : Except Ending Draft :=
  match f with
  | .version => .error .version
  | .help => .error .help
  | .verbose => .ok { d with flags := d.flags ++ [f] }
  | _ => if f ∈ d.flags then .error .repeated else .ok { d with flags := d.flags ++ [f] }

/-- Takes in a setting with its value. -/
def takeSetting (d : Draft) (s : Setting) (value : Text) : Except Ending Draft :=
  match s with
  | .config =>
    if d.config?.isSome then .error .repeated else .ok { d with config? := some value }
  | .stylePrefix =>
    if d.stylePrefix?.isSome then .error .repeated else .ok { d with stylePrefix? := some value }
  | .definition => .ok { d with definitions := d.definitions ++ [value] }

/-- Takes in letters behind a dash: flags, up to a setting. What is behind the letter of a
setting is its value, and an equals sign between them is not; a setting with nothing
behind it is still without a value. -/
def takeLetters (d : Draft) : Text → Except Ending (Draft × Option Setting)
  | [] => .ok (d, none)
  | c :: cs =>
    match Switch.ofShort? c with
    | none => .error (.unknownSwitch ['-', c])
    | some (.flag f) =>
      match d.takeFlag f with
      | .ok d => d.takeLetters cs
      | .error e => .error e
    | some (.setting s) =>
      match cs with
      | [] => .ok (d, some s)
      | '=' :: value => (d.takeSetting s value).map fun d => (d, none)
      | value => (d.takeSetting s value).map fun d => (d, none)

/-- Takes in a long switch, which may have a value behind an equals sign. -/
def takeLong (d : Draft) (body : Text) : Except Ending (Draft × Option Setting) :=
  let (name, value?) :=
    match splitOnce? '=' body with
    | some (name, value) => (name, some value)
    | none => (body, none)
  match Switch.ofLong? name, value? with
  | none, _ => .error (.unknownSwitch ('-' :: '-' :: body))
  | some (.flag _), some _ => .error .unexpectedValue
  | some (.flag f), none => (d.takeFlag f).map fun d => (d, none)
  | some (.setting s), some value => (d.takeSetting s value).map fun d => (d, none)
  | some (.setting s), none => .ok (d, some s)

/-- Takes in one argument, and the setting that the next is to be the value of. -/
def takeArgument (d : Draft) (argument : Text) : Except Ending (Draft × Option Setting) :=
  match argument with
  | '-' :: '-' :: body => d.takeLong body
  | '-' :: c :: cs => d.takeLetters (c :: cs)
  | path => (d.takeFile path).map fun d => (d, none)

/-- The argument looks like a switch. A dash alone does not. -/
def isSwitch : Text → Bool
  | '-' :: _ :: _ => true
  | _ => false

/-- **Reads the arguments**, where the next may have to be the value of a setting. -/
def read (d : Draft) (awaited : Option Setting) : List Text → Except Ending Draft
  | [] => if awaited.isSome then .error .missingValue else .ok d
  | a :: rest =>
    match awaited with
    | some s =>
      if isSwitch a then .error .missingValue
      else
        match d.takeSetting s a with
        | .ok d => d.read none rest
        | .error e => .error e
    | none =>
      if a = "--".toList then rest.foldlM takeFile d
      else
        match d.takeArgument a with
        | .ok (d, awaited) => d.read awaited rest
        | .error e => .error e

end Draft

/-- **The arguments of a command line.** -/
def Arguments.ofList (args : List Text) : Except Ending Arguments := do
  let d ← Draft.read {} none args
  match d.files with
  | [input, output] =>
    .ok {
      input, output
      config? := d.config?
      stylePrefix? := d.stylePrefix?
      definitions := d.definitions
      flags := d.flags }
  | _ => .error .missingFiles

/-! ### Options -/

/-- The name and value of a definition `NAME=VALUE`. Blanks around them do not belong to
them, nor do dashes in front of the name. -/
def definition? (text : Text) : Except FormatFault (Text × Text) :=
  match splitOnce? '=' text with
  | none => .error (.definition text)
  | some (before, after) =>
    match bareName (trim before) with
    | [] => .error (.definitionName text)
    | name => .ok (name, trim after)

/-- **The custom properties of definitions and a configuration.** Of definitions with the
same name the last counts; one of the configuration counts if there is no definition. -/
def predefinedOf (definitions : List (Text × Text)) (configured : List (Text × Text)) :
    TextMap Text :=
  configured.foldl (fun vs p => vs.insertNew (bareName p.1) p.2) (TextMap.ofList definitions)

/-- **The options of a command line with a configuration.** What the command line gives
comes first. -/
def Arguments.options (args : Arguments) (config : Config) : Except FormatFault Options := do
  let definitions ← args.definitions.mapM definition?
  return {
    mode := if .colors ∈ args.flags then .colors else config.mode?.getD .styles
    debug := .debug ∈ args.flags || config.debug?.getD false
    stylePrefix? := args.stylePrefix?.or config.stylePrefix?
    predefined := predefinedOf definitions (config.predefined?.getD []) }

end CssResources
