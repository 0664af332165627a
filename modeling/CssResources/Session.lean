import CssResources.Options
import CssResources.Property.Translation
import CssResources.Selector
import CssResources.Stylesheet.Basic
import CssResources.Diagnostic
import CssResources.Variable.Resolve

/-!
# Sessions

A session walks through rules once, in source order. **A custom property is defined when
its declaration is met**, so a value is resolved against the definitions before it and no
others.

A session for styles keeps, for each style, the items of each property: a later
declaration of the property replaces them where they are, and one that cannot be
translated leaves them. A session for colors resolves each custom property just before
it is defined, and keeps what came of it.
-/

namespace CssResources

/-! ### Colors -/

/-- **A custom property as it was when it was defined.** -/
structure Capture where
  /-- The line of the definition. -/
  line : Nat
  /-- The value it was given. -/
  raw : Text
  /-- The value resolved against the definitions before it. -/
  resolution : Resolution
  deriving DecidableEq, Repr

/-- The reports of a resolution: the cycles cut, then the properties not expanded. -/
def Resolution.diagnostics (r : Resolution) : List Diagnostic :=
  r.cycles.map .variableCycle ++ r.truncated.map .expansionLimit

/-- **The color of a captured property**, or the report that it is none. One that keeps a
reference is commented out and reported too. -/
def Capture.color (name : Text) (c : Capture) : Option ColorResource × List Diagnostic :=
  if c.resolution.isComplete then
    match colorLiteral? c.resolution.value with
    | some value => (some { name := resourceName name, value }, [])
    | none => (none, [.notAColor name c.resolution.value])
  else
    (some { name := resourceName name, value := eraseDashes c.resolution.value, commented := true },
      [.unresolvedVariable c.line ("--".toList ++ name) c.raw])

/-! ### Styles -/

/-- The items of each property of a style. -/
abbrev StyleItems := OrderedMap Text (List Item)

/-- **The styles of a session**, with the items of each property, in order of first
appearance. -/
abbrev StyleTable := OrderedMap Text StyleItems

namespace StyleTable

/-- Adds styles without items, unless they are there. -/
def ensure (styles : StyleTable) (names : List Text) : StyleTable :=
  names.foldl (fun m name => m.alter name (·.getD ∅)) styles

/-- **Gives a property of styles its items**, in place of those it may have. -/
def write (styles : StyleTable) (names : List Text) (property : Text) (items : List Item) :
    StyleTable :=
  names.foldl (fun m name => m.alter name fun s? => (s?.getD ∅).insert property items) styles

/-- The styles, each with the items of its properties in order. -/
def toStyles (styles : StyleTable) : List Style :=
  styles.entries.map fun e => { name := e.1, items := e.2.values.flatten }

end StyleTable

/-- The name of the style of a selector, with what every name begins with. -/
def Options.styleName? (options : Options) (selector : Text) : Option Text :=
  (Selector.ofText selector).styleName?.map (options.stylePrefix?.getD [] ++ ·)

/-- The styles that a rule gives items to, each once. -/
def Rule.targets (options : Options) (r : Rule) : List Text :=
  (r.selectors.filterMap options.styleName?).eraseDups

/-- The reports of the selectors of a rule that are rejected. -/
def Rule.rejections (r : Rule) : List Diagnostic :=
  r.selectors.filterMap fun selector =>
    match Selector.ofText selector with
    | .rejected cause => some (.unsupportedSelector r.line selector cause.reason)
    | _ => none

/-! ### Declarations -/

/-- The token is a word or a calculation that no attribute can take. -/
def isUnsupportedToken (token : Text) : Bool :=
  let t := lowerAscii token
  t == "auto".toList || t == "inherit".toList || (afterStart? "calc(".toList t).isSome

/-- The value holds such a token. -/
def hasUnsupportedToken (value : Text) : Bool := (tokens value).any isUnsupportedToken

/-- The report of a value that a property cannot take. -/
def Property.rejection (p : Property) (line : Nat) (name value : Text) : Diagnostic :=
  if p.isShorthand then .malformedShorthand line name value else .unsupportedValue line name value

/-- **The items of a declaration**, if it has any, and its reports. The value is resolved
first; a value with a token that no attribute can take is not translated. -/
def Declaration.convert (table : VariableTable) (p : Property) (d : Declaration) :
    Option (List Item) × List Diagnostic :=
  let value := stripImportant d.value
  let resolved := table.resolve value
  if hasUnsupportedToken resolved.value then
    (none, resolved.diagnostics ++ [.unsupportedValue d.line d.property resolved.value])
  else
    match (translate d.property resolved.value).items with
    | [] => (none, resolved.diagnostics ++ [p.rejection d.line d.property resolved.value])
    | items =>
      (some items, resolved.diagnostics
        ++ if items.any Item.commented then [.unresolvedVariable d.line d.property value] else [])

/-! ### The walk through the rules -/

/-- **What a session has gathered.** -/
structure Session where
  /-- The custom properties defined so far. -/
  table : VariableTable := ∅
  /-- The styles so far. -/
  styles : StyleTable := ∅
  /-- The custom properties captured so far, for colors. -/
  captured : OrderedMap Text Capture := ∅
  /-- The reports so far. -/
  diagnostics : List Diagnostic := []

namespace Session

/-- The session with reports added. -/
def report (s : Session) (ds : List Diagnostic) : Session :=
  { s with diagnostics := s.diagnostics ++ ds }

/-- Captures a custom property that is about to be defined. -/
def capture (s : Session) (name value : Text) (line : Nat) : Session :=
  let resolution := s.table.resolve value
  { s.report resolution.diagnostics with
    captured := s.captured.insert name { line, raw := value, resolution } }

/-- **Defines a custom property.** -/
def define (mode : Mode) (s : Session) (name value : Text) (line : Nat) : Session :=
  let s := if mode = .colors then s.capture name value line else s
  { s with table := VariableTable.define s.table name value line }

/-- Gives the items of a declaration to styles. -/
def apply (s : Session) (targets : List Text) (p : Property) (d : Declaration) : Session :=
  let r := d.convert s.table p
  let s := s.report r.2
  match r.1 with
  | some items => { s with styles := StyleTable.write s.styles targets d.property items }
  | none => s

/-- **Takes in a declaration** of a rule with these targets. -/
def declare (mode : Mode) (targets : List Text) (s : Session) (d : Declaration) : Session :=
  match d.customName? with
  | some name => s.define mode name (stripImportant d.value) d.line
  | none =>
    if targets.isEmpty then s
    else
      match Property.ofName? d.property with
      | some p => s.apply targets p d
      | none => s

/-- **Takes in a rule.** A session for colors has no use for selectors. -/
def rule (options : Options) (s : Session) (r : Rule) : Session :=
  match options.mode with
  | .colors => r.declarations.foldl (declare .colors []) s
  | .styles =>
    let targets := r.targets options
    let s := { s.report r.rejections with styles := StyleTable.ensure s.styles targets }
    r.declarations.foldl (declare .styles targets) s

/-- **A session before the first rule**: the custom properties of the options are
defined, in the order of their names. -/
def start (options : Options) : Session :=
  options.predefined.entries.foldl
    (fun s e => s.define options.mode (bareName e.1) e.2 0) {}

/-- Takes in rules. -/
def rules (options : Options) (s : Session) (rs : List Rule) : Session := rs.foldl (rule options) s

end Session

/-! ### What a session ends with -/

/-- **The resources that a session ends with**, and all else that it gathered. -/
structure Gathered where
  /-- The styles, for a session for styles. -/
  styles : List Style
  /-- The colors, for a session for colors. -/
  colors : List ColorResource
  /-- The custom properties. -/
  table : VariableTable
  /-- The reports. -/
  diagnostics : List Diagnostic

namespace Session

/-- The captured properties as colors, with the reports of this step. -/
def colorResults (s : Session) : List (Option ColorResource × List Diagnostic) :=
  s.captured.entries.map fun e => e.2.color e.1

/-- **Ends a session.** -/
def finish (options : Options) (s : Session) : Gathered :=
  let results := if options.mode = .colors then s.colorResults else []
  { styles := s.styles.toStyles
    colors := results.filterMap Prod.fst
    table := s.table
    diagnostics := s.diagnostics ++ results.flatMap Prod.snd }

end Session

/-- **What rules are converted to.** -/
def gather (options : Options) (rs : List Rule) : Gathered :=
  ((Session.start options).rules options rs).finish options

end CssResources
