import CssResources.Conversion
import CssResources.Proofs.Session.ColorMeaning
import CssResources.Proofs.Variable.Substitution
import Mathlib.Data.List.Basic

/-!
# The walk through the rules finds their colors

A session for colors does nothing with rules but define their custom properties, one after
the other (`CssResources.Session.rules_start_of_colors`). Its state after some definitions is
known from them (`CssResources.Session.Collects`): the table is written from them, and each
property has the capture of its last definition. The two stores are kept apart, but their
keys come in the same order, since a definition goes into both.

What `CssResources.colorAmong?` says is then read off the last state
(`CssResources.gather_colors_eq_meaning`).
-/

namespace CssResources

variable {options : Options}

/-- **The capture of a definition** that comes after others. -/
def Definition.captureAfter (before : List (Text × Definition)) (d : Definition) : Capture where
  line := d.line
  raw := d.value
  resolution := resolve (valueAfter? before) defaultLimit d.value

/-! ### The color of a capture -/

theorem Capture.color_fst (name : Text) (c : Capture) :
    (c.color name).1 = colorOf? name c.resolution.value := by
  rw [Capture.color, colorOf?, Resolution.isComplete]
  cases hasReference c.resolution.value with
  | true => rfl
  | false => cases colorLiteral? c.resolution.value <;> rfl

/-- A capture is reported as no color exactly if it has none. -/
theorem Capture.color_snd_filter (name : Text) (c : Capture) :
    (c.color name).2.filter Diagnostic.isNotAColor =
      if (colorOf? name c.resolution.value).isSome then []
      else [.notAColor name c.resolution.value] := by
  rw [Capture.color, colorOf?, Resolution.isComplete]
  cases hasReference c.resolution.value with
  | true => rfl
  | false => cases colorLiteral? c.resolution.value <;> rfl

/-- The reports of a resolution are about cycles and limits. -/
theorem isNotAColor_of_mem_resolution {r : Resolution} {d : Diagnostic} (h : d ∈ r.diagnostics) :
    d.isNotAColor = false := by
  rcases List.mem_append.mp h with h | h
  all_goals
    obtain ⟨name, -, rfl⟩ := List.mem_map.mp h
    rfl

/-! ### The invariant -/

namespace Session

/-- **A session for colors that has taken in definitions holds what they mean.** -/
structure Collects (defs : List (Text × Definition)) (s : Session) : Prop where
  /-- The table holds the last definition of each property, in order of first definition. -/
  table : s.table = OrderedMap.write ∅ defs
  /-- The captures come in the same order. -/
  keys : s.captured.keys = (defs.map Prod.fst).eraseDups
  /-- Each property has the capture of its last definition. -/
  captured : ∀ name, s.captured.get? name =
    (lastDefinition? name defs).map fun p => p.2.captureAfter p.1
  /-- There is no style. -/
  styles : s.styles = ∅
  /-- No property was reported to have no color. -/
  reports : ∀ d ∈ s.diagnostics, d.isNotAColor = false

variable {defs : List (Text × Definition)} {s : Session}

/-- A value is looked up among the definitions taken in. -/
theorem Collects.value?_eq (h : s.Collects defs) : s.table.value? = valueAfter? defs := by
  funext name
  rw [h.table, VariableTable.value?, OrderedMap.get?_write_empty, valueAfter?]

/-- **One definition takes what is collected to what is collected.** -/
theorem Collects.define (h : s.Collects defs) (name : Text) (d : Definition) :
    (s.define .colors name d.value d.line).Collects (defs ++ [(name, d)]) := by
  have hcaptured : (s.define .colors name d.value d.line).captured =
      s.captured.insert name (d.captureAfter defs) := by
    simp [Session.define, Session.capture, Session.report, VariableTable.resolve, h.value?_eq,
      Definition.captureAfter]
  refine ⟨?_, ?_, fun other => ?_, h.styles, fun r hr => ?_⟩
  · rw [OrderedMap.write_concat, ← h.table]
    rfl
  · rw [hcaptured, OrderedMap.keys_insert, h.keys, List.map_append, List.map_singleton,
      eraseDups_concat]
    simp only [List.mem_eraseDups]
  -- the table has not changed when the capture is made
  · rw [hcaptured, OrderedMap.get?_insert, h.captured, lastDefinition?_concat]
    split <;> rfl
  · rcases List.mem_append.mp hr with hr | hr
    · exact h.reports r hr
    · exact isNotAColor_of_mem_resolution hr

/-- Takes in definitions, one after the other. -/
def defineAll (s : Session) (defs : List (Text × Definition)) : Session :=
  defs.foldl (fun s e => s.define .colors e.1 e.2.value e.2.line) s

/-- **Definitions take what is collected to what is collected.** -/
theorem Collects.defineAll (h : s.Collects defs) (defs' : List (Text × Definition)) :
    (s.defineAll defs').Collects (defs ++ defs') := by
  induction defs' generalizing s defs with
  | nil => simpa [Session.defineAll] using h
  | cons e defs' ih => simpa [Session.defineAll] using ih (h.define e.1 e.2)

/-- Before the first definition there is nothing. -/
theorem collects_nil : ({} : Session).Collects [] :=
  ⟨rfl, rfl, fun _ => rfl, rfl, by simp⟩

/-! ### Rules are their definitions -/

theorem declare_of_colors (s : Session) (d : Declaration) :
    s.declare .colors [] d = s.defineAll d.defines?.toList := by
  rw [Session.declare, Declaration.defines?]
  cases d.customName? <;> rfl

theorem defineAll_append (s : Session) (defs defs' : List (Text × Definition)) :
    s.defineAll (defs ++ defs') = (s.defineAll defs).defineAll defs' :=
  List.foldl_append

/-- Declarations define their custom properties and do nothing else. -/
theorem foldl_declare_of_colors (s : Session) (ds : List Declaration) :
    ds.foldl (declare .colors []) s = s.defineAll (ds.filterMap Declaration.defines?) := by
  induction ds generalizing s with
  | nil => rfl
  | cons d ds ih =>
    rw [List.foldl_cons, ih, declare_of_colors, ← defineAll_append]
    cases h : d.defines? <;> simp [h]

/-- Rules define the custom properties of their declarations, whatever their selectors. -/
theorem rules_of_colors (h : options.mode = .colors) (s : Session) (rs : List Rule) :
    s.rules options rs =
      s.defineAll ((rs.flatMap Rule.declarations).filterMap Declaration.defines?) := by
  have hrule : Session.rule options =
      fun s r => r.declarations.foldl (declare .colors []) s := by
    funext s r
    rw [Session.rule, h]
  rw [Session.rules, hrule, ← foldl_declare_of_colors, List.foldl_flatMap]

/-- **A session for colors takes in its definitions and nothing else.** -/
theorem rules_start_of_colors (h : options.mode = .colors) (rs : List Rule) :
    (Session.start options).rules options rs = Session.defineAll {} (definitionsIn options rs) := by
  have hstart : Session.start options = Session.defineAll {}
      (options.predefined.entries.map fun e => (bareName e.1, ⟨e.2, 0⟩)) := by
    rw [Session.start, h, Session.defineAll, List.foldl_map]
  rw [rules_of_colors h, hstart, ← defineAll_append, definitionsIn]

/-- **What a session for colors has collected at the end.** -/
theorem collects_rules (h : options.mode = .colors) (rs : List Rule) :
    ((Session.start options).rules options rs).Collects (definitionsIn options rs) := by
  rw [rules_start_of_colors h]
  exact collects_nil.defineAll _

/-! ### The results -/

/-- What the captures are, in order. -/
theorem Collects.entries_captured (h : s.Collects defs) :
    s.captured.entries = (defs.map Prod.fst).eraseDups.filterMap fun name =>
      (lastDefinition? name defs).map fun p => (name, p.2.captureAfter p.1) := by
  rw [OrderedMap.entries_eq_filterMap, h.keys]
  simp only [h.captured, Option.map_map]
  rfl

/-- **The colors of a session**, property by property. -/
theorem Collects.filterMap_colorResults (h : s.Collects defs) :
    s.colorResults.filterMap Prod.fst =
      (defs.map Prod.fst).eraseDups.filterMap (colorAmong? defs) := by
  rw [colorResults, h.entries_captured, List.filterMap_map, List.filterMap_filterMap]
  refine List.filterMap_congr fun name _ => ?_
  rw [colorAmong?, resolvedAmong?]
  cases lastDefinition? name defs with
  | none => rfl
  | some p => exact Capture.color_fst name _

/-- **The properties of a session that have no color**, each reported once. -/
theorem Collects.filter_colorResults (h : s.Collects defs) :
    (s.colorResults.flatMap Prod.snd).filter Diagnostic.isNotAColor =
      (defs.map Prod.fst).eraseDups.filterMap (notAColorAmong? defs) := by
  rw [colorResults, h.entries_captured, List.map_filterMap]
  generalize (defs.map Prod.fst).eraseDups = names
  induction names with
  | nil => rfl
  | cons name names ih =>
    rw [List.filterMap_cons, List.filterMap_cons, notAColorAmong?, resolvedAmong?]
    cases lastDefinition? name defs with
    | none => exact ih
    | some p =>
      simp only [Option.map_some, Option.bind_some, List.flatMap_cons, List.filter_append, ih,
        Capture.color_snd_filter]
      rw [Definition.captureAfter]
      split <;> simp_all

end Session

/-- A session for colors ends with no style. -/
theorem styles_gather_of_colors (hmode : options.mode = .colors) (rs : List Rule) :
    (gather options rs).styles = [] := by
  show StyleTable.toStyles (Session.styles _) = _
  rw [(Session.collects_rules hmode rs).styles]
  rfl

/-- A property that is defined once, without a reference, has the color of its value as it is. -/
theorem colorAmong?_of_nodup {defs : List (Text × Definition)}
    (hnodup : (defs.map Prod.fst).Nodup) {e : Text × Definition} (he : e ∈ defs)
    (h : firstReference? e.2.value = none) : colorAmong? defs e.1 = colorOf? e.1 e.2.value := by
  obtain ⟨before, after, rfl⟩ := List.append_of_mem he
  rw [List.map_append, List.map_cons] at hnodup
  have hafter : e.1 ∉ after.map Prod.fst := (List.nodup_cons.mp (List.nodup_append.mp hnodup).2.1).1
  rw [colorAmong?, resolvedAmong?, lastDefinition?_append_cons before e hafter, Option.map_some,
    resolve_of_none h, Option.bind_some]

/-- The colors of a stylesheet, from its definitions. -/
theorem colors_convert (hmode : options.mode = .colors) (source : Text) :
    (convert options source).colors =
      ((definitionsIn options (Stylesheet.ofText source).rules).map Prod.fst).eraseDups.filterMap
        (colorAmong? (definitionsIn options (Stylesheet.ofText source).rules)) := by
  rw [← (Session.collects_rules hmode (Stylesheet.ofText source).rules).filterMap_colorResults]
  show (Session.finish options _).colors = _
  rw [Session.finish, if_pos hmode]

/-- Where each property is defined once and no value has a reference, **the colors are those of the
values**, in order. -/
theorem colors_convert_of_nodup (hmode : options.mode = .colors) {source : Text}
    {defs : List (Text × Definition)}
    (hdefs : definitionsIn options (Stylesheet.ofText source).rules = defs)
    (hnodup : (defs.map Prod.fst).Nodup) (h : ∀ e ∈ defs, firstReference? e.2.value = none) :
    (convert options source).colors = defs.filterMap fun e => colorOf? e.1 e.2.value := by
  rw [colors_convert hmode, hdefs, eraseDups_of_nodup hnodup, List.filterMap_map]
  exact List.filterMap_congr fun e he => colorAmong?_of_nodup hnodup he (h e he)

/-! ### The theorem -/

/-- **The colors of a session are what its definitions mean**: nothing but the definitions
counts; the table has the last definition of each property, in the order of the first ones;
in this order each property has the color of what its last definition comes to, resolved
against the definitions before it; a property without a color is reported, once; and there
is no style. -/
theorem gather_colors_eq_meaning (options : Options) (hmode : options.mode = .colors)
    (rs : List Rule) :
    let defs := definitionsIn options rs
    let names := (defs.map Prod.fst).eraseDups
    (∀ options' rs', options'.mode = .colors → definitionsIn options' rs' = defs →
        gather options' rs' = gather options rs) ∧
      (gather options rs).table.entries =
        (names.filterMap fun name => (lastValue? name defs).map (name, ·)) ∧
      (gather options rs).colors = names.filterMap (colorAmong? defs) ∧
      (gather options rs).diagnostics.filter Diagnostic.isNotAColor =
        names.filterMap (notAColorAmong? defs) ∧
      (gather options rs).styles = [] := by
  intro defs names
  have hsession := Session.rules_start_of_colors hmode rs
  have h : ((Session.start options).rules options rs).Collects defs :=
    Session.collects_rules hmode rs
  refine ⟨fun options' rs' hmode' hdefs => ?_, ?_, ?_, ?_, ?_⟩
  · rw [gather, gather, hsession, Session.rules_start_of_colors hmode' rs', hdefs, Session.finish,
      Session.finish, hmode, hmode']
  · show OrderedMap.entries (Session.table _) = _
    rw [h.table, OrderedMap.entries_eq_filterMap, OrderedMap.keys_write_empty]
    simp only [OrderedMap.get?_write_empty, names]
  · rw [gather, Session.finish, if_pos hmode]
    exact h.filterMap_colorResults
  · rw [gather, Session.finish, if_pos hmode, List.filter_append, h.filter_colorResults,
      List.filter_eq_nil_iff.mpr, List.nil_append]
    intro d hd
    simp [h.reports d hd]
  · exact styles_gather_of_colors hmode rs

/-- Options for colors, with one property from outside. -/
def swatchOptions : Options where
  mode := .colors
  predefined := TextMap.insert ∅ "--ink".toList "#112233".toList

/-- Rules that refer to a property before it is defined, define one anew by means of itself, and
define one that is no color. -/
def swatchRules : List Rule :=
  [{ selectors := []
     declarations :=
       [⟨"--text".toList, "var(--brand)".toList, 1⟩,
        ⟨"--brand".toList, "var(--ink)".toList, 2⟩,
        ⟨"--gap".toList, "8px".toList, 3⟩]
     line := 1 },
   { selectors := ["a:hover".toList]
     declarations :=
       [⟨"--brand".toList, "var(--brand) !important".toList, 5⟩,
        ⟨"color".toList, "red".toList, 6⟩]
     line := 4 }]

theorem gather_colors_eq_meaning_swatch :
    swatchOptions.mode = .colors ∧
      (gather swatchOptions swatchRules).colors =
        ["ink".toList, "text".toList, "brand".toList, "gap".toList].filterMap
          (colorAmong? (definitionsIn swatchOptions swatchRules)) ∧
      colorAmong? (definitionsIn swatchOptions swatchRules) "text".toList =
        some { name := "text".toList, value := "var(brand)".toList, commented := true } ∧
      (gather swatchOptions swatchRules).table.entries =
        [("ink".toList, ⟨"#112233".toList, 0⟩), ("text".toList, ⟨"var(--brand)".toList, 1⟩),
         ("brand".toList, ⟨"var(--brand)".toList, 5⟩), ("gap".toList, ⟨"8px".toList, 3⟩)] := by
  obtain ⟨-, htable, hcolors, -, -⟩ := gather_colors_eq_meaning swatchOptions rfl swatchRules
  have hnames : ((definitionsIn swatchOptions swatchRules).map Prod.fst).eraseDups =
      ["ink".toList, "text".toList, "brand".toList, "gap".toList] := by decide +kernel
  rw [hnames] at hcolors
  have hlast : lastDefinition? "text".toList (definitionsIn swatchOptions swatchRules) =
      some ([("ink".toList, ⟨"#112233".toList, 0⟩)], ⟨"var(--brand)".toList, 1⟩) := by
    decide +kernel
  have hcut : firstReference? "var(--brand)".toList =
      some ⟨[], ⟨"brand".toList, none, "var(--brand)".toList⟩, []⟩ := by decide
  have hkept : (resolve (valueAfter? [("ink".toList, ⟨"#112233".toList, 0⟩)]) defaultLimit
      "var(--brand)".toList).value = "var(--brand)".toList := by
    rw [resolve, ← expandText, expandText_of_kept hcut
      (Reference.fate_eq_undefined_iff.mpr ⟨List.not_mem_nil, by decide⟩), expandText_of_none rfl]
    rfl
  have htext : colorAmong? (definitionsIn swatchOptions swatchRules) "text".toList =
      some { name := "text".toList, value := "var(brand)".toList, commented := true } := by
    rw [colorAmong?, resolvedAmong?, hlast, Option.map_some, hkept]
    decide +kernel
  exact ⟨rfl, hcolors, htext, htable.trans (by decide +kernel)⟩

end CssResources
