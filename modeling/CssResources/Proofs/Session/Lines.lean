import CssResources.Conversion
import CssResources.Proofs.OrderedMap
import CssResources.Proofs.Stylesheet.Lines
import Mathlib.Data.List.Basic

/-!
# What lines mean to a session

Lines are for reports. A session copies them from rules and declarations to definitions,
captures and reports, and decides nothing by them: with all lines changed it does the same, and
ends with the same resources (`CssResources.Session.rules_mapLine`,
`CssResources.Session.finish_mapLine`).

Neither does it matter to a session how rules without selectors are put together: merged, they
do what they do one after the other (`CssResources.Session.rules_mergeLoose`).
-/

namespace CssResources

variable (f : Nat → Nat)

/-! ### Changing lines -/

/-- The definition at another line. -/
def Definition.mapLine (d : Definition) : Definition := { d with line := f d.line }

/-- The capture at another line. -/
def Capture.mapLine (c : Capture) : Capture := { c with line := f c.line }

/-- The table with its definitions at other lines. -/
def VariableTable.mapLine (table : VariableTable) : VariableTable :=
  OrderedMap.map (Definition.mapLine f) table

/-- The session with all lines changed. -/
def Session.mapLine (s : Session) : Session where
  table := s.table.mapLine f
  styles := s.styles
  captured := s.captured.map (Capture.mapLine f)
  diagnostics := s.diagnostics.map (Diagnostic.mapLine f)

/-- What a session ends with, with all lines changed. -/
def Gathered.mapLine (g : Gathered) : Gathered :=
  { g with
    table := g.table.mapLine f
    diagnostics := g.diagnostics.map (Diagnostic.mapLine f) }

/-! ### Definitions and captures -/

theorem VariableTable.value?_mapLine (table : VariableTable) :
    (table.mapLine f).value? = table.value? := by
  funext name
  rw [value?, mapLine, OrderedMap.get?_map, value?, Option.map_map]
  rfl

theorem VariableTable.resolve_mapLine (table : VariableTable) (raw : Text) :
    (table.mapLine f).resolve raw = table.resolve raw := by
  rw [resolve, value?_mapLine, resolve]

theorem VariableTable.mapLine_define (table : VariableTable) (name value : Text) (line : Nat) :
    (define table name value line).mapLine f = define (table.mapLine f) name value (f line) :=
  OrderedMap.map_insert _ _ _ _

/-- The reports of a resolution are for no line. -/
theorem Resolution.map_mapLine_diagnostics (r : Resolution) :
    r.diagnostics.map (Diagnostic.mapLine f) = r.diagnostics := by
  rw [diagnostics, List.map_append, List.map_map, List.map_map]
  rfl

/-- **The color of a capture does not depend on its line.** -/
theorem Capture.color_mapLine (name : Text) (c : Capture) :
    (c.mapLine f).color name =
      ((c.color name).1, (c.color name).2.map (Diagnostic.mapLine f)) := by
  rw [color, color, mapLine]
  split
  · cases colorLiteral? c.resolution.value <;> rfl
  · rfl

/-! ### Declarations -/

theorem Property.mapLine_rejection (p : Property) (line : Nat) (name value : Text) :
    (p.rejection line name value).mapLine f = p.rejection (f line) name value := by
  rw [rejection, rejection]
  split <;> rfl

/-- **The items of a declaration do not depend on lines.** -/
theorem Declaration.convert_mapLine (table : VariableTable) (p : Property) (d : Declaration) :
    (d.mapLine f).convert (table.mapLine f) p =
      ((d.convert table p).1, (d.convert table p).2.map (Diagnostic.mapLine f)) := by
  simp only [convert, mapLine, VariableTable.resolve_mapLine]
  split
  · simp [Resolution.map_mapLine_diagnostics, Diagnostic.mapLine]
  · cases (translate d.property
        (table.resolve (stripImportant d.value)).value).items with
    | nil => simp [Resolution.map_mapLine_diagnostics, Property.mapLine_rejection]
    | cons item items =>
      simp only [List.map_append, Resolution.map_mapLine_diagnostics]
      split <;> rfl

namespace Session

theorem mapLine_report (s : Session) (ds : List Diagnostic) :
    (s.report ds).mapLine f = (s.mapLine f).report (ds.map (Diagnostic.mapLine f)) := by
  simp [report, mapLine]

theorem mapLine_capture (s : Session) (name value : Text) (line : Nat) :
    (s.capture name value line).mapLine f = (s.mapLine f).capture name value (f line) := by
  have hresolve : (s.mapLine f).table.resolve value = s.table.resolve value :=
    VariableTable.resolve_mapLine f s.table value
  rw [capture, capture, hresolve]
  simp [report, mapLine, OrderedMap.map_insert, Resolution.map_mapLine_diagnostics,
    Capture.mapLine]

theorem mapLine_define (mode : Mode) (s : Session) (name value : Text) (line : Nat) :
    (s.define mode name value line).mapLine f =
      (s.mapLine f).define mode name value (f line) := by
  rw [define, define]
  cases mode with
  | styles => simp [mapLine, VariableTable.mapLine_define]
  | colors =>
    rw [if_pos rfl, if_pos rfl, ← mapLine_capture]
    simp [mapLine, VariableTable.mapLine_define]

theorem mapLine_apply (s : Session) (targets : List Text) (p : Property) (d : Declaration) :
    (s.apply targets p d).mapLine f = (s.mapLine f).apply targets p (d.mapLine f) := by
  have hconvert : (d.mapLine f).convert (s.mapLine f).table p = _ :=
    Declaration.convert_mapLine f s.table p d
  rw [apply, apply, hconvert]
  dsimp only
  rw [← mapLine_report]
  cases (d.convert s.table p).1 <;> rfl

/-- **A declaration does the same with all lines changed.** -/
theorem mapLine_declare (mode : Mode) (targets : List Text) (s : Session) (d : Declaration) :
    (s.declare mode targets d).mapLine f = (s.mapLine f).declare mode targets (d.mapLine f) := by
  have hname : (d.mapLine f).customName? = d.customName? := rfl
  rw [declare, declare, hname]
  cases d.customName? with
  | some name => exact mapLine_define f mode s name _ d.line
  | none =>
    dsimp only
    split
    · rfl
    · have hproperty : (d.mapLine f).property = d.property := rfl
      rw [hproperty]
      cases Property.ofName? d.property with
      | none => rfl
      | some p => exact mapLine_apply f s targets p d

theorem mapLine_foldl_declare (mode : Mode) (targets : List Text) (s : Session)
    (ds : List Declaration) :
    (ds.foldl (declare mode targets) s).mapLine f =
      (ds.map (Declaration.mapLine f)).foldl (declare mode targets) (s.mapLine f) := by
  induction ds generalizing s with
  | nil => rfl
  | cons d ds ih => rw [List.foldl_cons, ih, mapLine_declare, List.map_cons, List.foldl_cons]

end Session

/-! ### Rules -/

theorem Rule.rejections_mapLine (r : Rule) :
    (r.mapLine f).rejections = r.rejections.map (Diagnostic.mapLine f) := by
  rw [rejections, rejections, List.map_filterMap]
  refine List.filterMap_congr fun selector _ => ?_
  cases Selector.ofText selector <;> rfl

namespace Session

variable (options : Options)

/-- **A rule does the same with all lines changed.** -/
theorem mapLine_rule (s : Session) (r : Rule) :
    (s.rule options r).mapLine f = (s.mapLine f).rule options (r.mapLine f) := by
  rw [rule, rule]
  cases options.mode with
  | colors => exact mapLine_foldl_declare f .colors [] s r.declarations
  | styles =>
    dsimp only
    rw [mapLine_foldl_declare, Rule.rejections_mapLine, ← mapLine_report]
    rfl

/-- **A session does the same with all lines changed.** -/
theorem rules_mapLine (s : Session) (rs : List Rule) :
    (s.rules options rs).mapLine f = (s.mapLine f).rules options (rs.map (Rule.mapLine f)) := by
  induction rs generalizing s with
  | nil => rfl
  | cons r rs ih =>
    rw [rules, List.foldl_cons, ← rules, ih, mapLine_rule, List.map_cons, rules, rules,
      List.foldl_cons]

/-- **What a session ends with is the same with all lines changed.** -/
theorem finish_mapLine (s : Session) :
    (s.mapLine f).finish options = (s.finish options).mapLine f := by
  have hresults : (s.mapLine f).colorResults =
      s.colorResults.map fun r => (r.1, r.2.map (Diagnostic.mapLine f)) := by
    rw [colorResults, mapLine, OrderedMap.map, List.map_map, colorResults, List.map_map]
    exact List.map_congr_left fun e _ => Capture.color_mapLine f e.1 e.2
  rw [finish, finish, hresults]
  split
  · simp only [Gathered.mapLine, mapLine, List.map_append, List.filterMap_map, List.flatMap_map,
      List.map_flatMap]
    rfl
  · simp [Gathered.mapLine, mapLine]

/-! ### Rules without selectors -/

/-- A rule without selectors does what its declarations do. -/
theorem rule_of_selectors_eq_nil {r : Rule} (h : r.selectors = []) (s : Session) :
    s.rule options r = r.declarations.foldl (declare options.mode []) s := by
  rw [rule, Rule.targets, Rule.rejections, h]
  cases options.mode with
  | colors => rfl
  | styles =>
    simp [report, StyleTable.ensure]

theorem rules_mergeInto (r : Rule) (rs : List Rule) (s : Session) :
    s.rules options (Rule.mergeInto r rs) = s.rules options (r :: rs) := by
  cases rs with
  | nil => rfl
  | cons r' rs =>
    rw [Rule.mergeInto]
    split
    · rename_i hloose
      obtain ⟨hr, hr'⟩ : r.selectors = [] ∧ r'.selectors = [] := by simpa using hloose
      simp only [rules, List.foldl_cons, rule_of_selectors_eq_nil options hr,
        rule_of_selectors_eq_nil options hr']
      rw [rule_of_selectors_eq_nil options (by exact hr), List.foldl_append]
    · rfl

/-- **Rules without selectors do the same merged and one after the other.** -/
theorem rules_mergeLoose (rs : List Rule) (s : Session) :
    s.rules options (Rule.mergeLoose rs) = s.rules options rs := by
  induction rs generalizing s with
  | nil => rfl
  | cons r rs ih =>
    rw [Rule.mergeLoose_cons, rules_mergeInto, rules, List.foldl_cons, ← rules, ih, rules, rules,
      List.foldl_cons]

end Session

end CssResources
