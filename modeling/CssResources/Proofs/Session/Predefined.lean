import CssResources.Proofs.Session.ColorWalk
import CssResources.Proofs.Session.Lines
import CssResources.Proofs.Stylesheet.Definitions

/-!
# Custom properties given from outside

Custom properties may be given with the options, or be defined by the stylesheet itself, in a
line for each of them in front of the rest (`CssResources.definitionLines`). The two ways come
to the same (`CssResources.convert_eq_convert_definitionLines`) if a value is read alone from
its line, **and carries no marker**: a definition that is read loses its `!important`, and one
that is given keeps it.

A value with a marker may make a difference, as a color with a marker is none
(`CssResources.colors_ne_colors_definitionLines_brand`).
-/

namespace CssResources

/-- **The definitions of properties that are given**, a line for each, in the order of their
names. -/
def definitionLines (predefined : TextMap Text) : Text :=
  predefined.entries.flatMap fun e => definitionLine e.1 e.2

/-! ### Reading the lines -/

/-- **Definition lines in front of a text are read as a rule each**, up to the lines of what is
read. -/
theorem map_mapLine_fragmentsOf_append {es : List (Text × Text)}
    (h : ∀ e ∈ es, IsCustomName e.1 ∧ ReadsAlone e.1 e.2) (t : Text) :
    let source := (es.flatMap fun e => definitionLine e.1 e.2) ++ t
    ((Stylesheet.fragmentsOf source).flatMap Fragment.rules).map (Rule.mapLine noLine) =
        (es.map fun e => definitionRule e.1 e.2 0)
          ++ ((Stylesheet.fragmentsOf t).flatMap Fragment.rules).map (Rule.mapLine noLine) ∧
      ((Stylesheet.fragmentsOf source).flatMap Fragment.diagnostics).map
          (Diagnostic.mapLine noLine) =
        ((Stylesheet.fragmentsOf t).flatMap Fragment.diagnostics).map
          (Diagnostic.mapLine noLine) := by
  induction es with
  | nil => exact ⟨rfl, rfl⟩
  | cons e es ih =>
    obtain ⟨hrules, hdiagnostics⟩ := ih fun e he => h e (List.mem_cons_of_mem _ he)
    obtain ⟨hname, hvalue⟩ := h e (List.mem_cons_self ..)
    obtain ⟨hfirst, hreports⟩ := (hvalue.isReadable hname).fragmentsOf_append hname
      ((es.flatMap fun e => definitionLine e.1 e.2) ++ t)
    dsimp only at hrules hdiagnostics ⊢
    rw [List.flatMap_cons, List.append_assoc, hfirst, hreports]
    constructor
    · rw [List.map_cons, Rule.map_noLine_map_mapLine, hrules]
      rfl
    · rw [List.map_map, ← hdiagnostics]
      exact List.map_congr_left fun d _ => Diagnostic.mapLine_mapLine _ _ d

/-! ### Taking the definitions in -/

/-- A name without dashes in front is its bare name. -/
theorem IsCustomName.bareName_eq {name : Text} (h : IsCustomName name) : bareName name = name := by
  unfold bareName
  split
  · exact absurd (List.prefix_append "--".toList _) h.bare
  · rfl

namespace Session

variable (options : Options)

/-- **A definition that is read defines its property**, with the value without its markers. -/
theorem rule_definitionRule (s : Session) (name value : Text) (line : Nat) :
    s.rule options (definitionRule name value line) =
      s.define options.mode name (stripImportant value) line := by
  have hname : (customDeclaration name value line).customName? = some name :=
    afterStart?_eq_some_iff.mpr rfl
  rw [rule_of_selectors_eq_nil options rfl, definitionRule, List.foldl_cons, List.foldl_nil,
    declare, hname]
  rfl

/-- **The definitions in front take a session to where it starts** if they are given. -/
theorem rules_definitionRule
    (h : ∀ e ∈ options.predefined.entries, IsCustomName e.1 ∧ stripImportant e.2 = e.2) :
    ({} : Session).rules options
        (options.predefined.entries.map fun e => definitionRule e.1 e.2 0) =
      Session.start options := by
  rw [rules, List.foldl_map, start]
  refine List.foldl_ext _ _ _ fun s e he => ?_
  obtain ⟨hname, hvalue⟩ := h e he
  rw [rule_definitionRule, hname.bareName_eq, hvalue]

theorem rules_append (s : Session) (rs ss : List Rule) :
    s.rules options (rs ++ ss) = (s.rules options rs).rules options ss :=
  List.foldl_append

/-- The properties that are given only matter before the first rule. -/
theorem rules_without_predefined (s : Session) (rs : List Rule) :
    s.rules { options with predefined := ∅ } rs = s.rules options rs := rfl

theorem finish_without_predefined (s : Session) :
    s.finish { options with predefined := ∅ } = s.finish options := rfl

end Session

/-- What is gathered depends on the rules as they are before they are merged. -/
theorem gather_mergeLoose (options : Options) (rs : List Rule) :
    gather options (Rule.mergeLoose rs) = gather options rs := by
  rw [gather, Session.rules_mergeLoose, gather]

/-- **The same is gathered with properties that are given and with properties that are defined**,
up to lines. -/
theorem gather_mapLine_eq (options : Options) (source : Text)
    (h : ∀ e ∈ options.predefined.entries,
      IsCustomName e.1 ∧ ReadsAlone e.1 e.2 ∧ stripImportant e.2 = e.2) :
    (gather options (Stylesheet.ofText source).rules).mapLine noLine =
      Gathered.mapLine noLine (gather { options with predefined := ∅ }
        (Stylesheet.ofText (definitionLines options.predefined ++ source)).rules) := by
  have hread := (map_mapLine_fragmentsOf_append (fun e he => ⟨(h e he).1, (h e he).2.1⟩) source).1
  have hstart := Session.rules_definitionRule options fun e he => ⟨(h e he).1, (h e he).2.2⟩
  have hempty : Session.start { options with predefined := ∅ } = {} := rfl
  have hlines : (Session.start options).mapLine noLine = Session.start options := by
    rw [← hstart, Session.rules_mapLine, List.map_map]
    rfl
  have hnil : ({} : Session).mapLine noLine = {} := rfl
  simp only [Stylesheet.ofText, gather_mergeLoose]
  rw [gather, gather, hempty, Session.rules_without_predefined, Session.finish_without_predefined,
    ← Session.finish_mapLine, ← Session.finish_mapLine, Session.rules_mapLine,
    Session.rules_mapLine, definitionLines, hread, Session.rules_append, hnil, hstart, hlines]

/-! ### The theorem -/

/-- A document has no lines. -/
theorem Gathered.document_mapLine (f : Nat → Nat) (mode : Mode) (g : Gathered) :
    (g.mapLine f).document mode = g.document mode := by
  cases mode <;> rfl

/-- **Properties may be given or defined.** For properties whose values are read alone and carry
no marker, a conversion with these properties gives the same document, styles and colors as one
of the text with a definition line for each in front. The reports are the same up to their
lines, and so are the counts, but for those of the text and its rules. -/
theorem convert_eq_convert_definitionLines (options : Options) (source : Text)
    (h : ∀ e ∈ options.predefined.entries,
      IsCustomName e.1 ∧ ReadsAlone e.1 e.2 ∧ stripImportant e.2 = e.2) :
    let given := convert options source
    let defined := convert { options with predefined := ∅ }
      (definitionLines options.predefined ++ source)
    given.document = defined.document ∧ given.styles = defined.styles ∧
      given.colors = defined.colors ∧
      given.diagnostics.map (Diagnostic.mapLine noLine) =
        defined.diagnostics.map (Diagnostic.mapLine noLine) ∧
      { given.statistics with sourceSize := 0, ruleCount := 0 } =
        { defined.statistics with sourceSize := 0, ruleCount := 0 } := by
  intro given defined
  have hgathered := gather_mapLine_eq options source h
  have hreports :=
    (map_mapLine_fragmentsOf_append (fun e he => ⟨(h e he).1, (h e he).2.1⟩) source).2
  have hdocument : given.document = defined.document := by
    have hdocument := congrArg (Gathered.document options.mode) hgathered
    rwa [Gathered.document_mapLine, Gathered.document_mapLine] at hdocument
  have hstyles : given.styles = defined.styles :=
    (congrArg Gathered.styles hgathered :)
  have hcolors : given.colors = defined.colors :=
    (congrArg Gathered.colors hgathered :)
  have hdiagnostics : given.diagnostics.map (Diagnostic.mapLine noLine) =
      defined.diagnostics.map (Diagnostic.mapLine noLine) := by
    simp only [given, defined, convert, List.map_append]
    exact congrArg₂ List.append hreports.symm (congrArg Gathered.diagnostics hgathered)
  have hsize : given.statistics.customPropertyCount = defined.statistics.customPropertyCount := by
    have hsize := congrArg (fun g => OrderedMap.size (Gathered.table g)) hgathered
    rwa [Gathered.mapLine, Gathered.mapLine, VariableTable.mapLine, VariableTable.mapLine,
      OrderedMap.size_map, OrderedMap.size_map] at hsize
  have hlength : given.diagnostics.length = defined.diagnostics.length := by
    simpa using congrArg List.length hdiagnostics
  refine ⟨hdocument, hstyles, hcolors, hdiagnostics, ?_⟩
  -- the counts are those of what is the same
  show Statistics.mk 0 (utf8Size given.document) 0 given.styles.length
      (given.styles.flatMap Style.items).length given.colors.length
      given.statistics.customPropertyCount
      ((given.styles.flatMap Style.items).countP Item.commented
        + given.colors.countP ColorResource.commented) given.diagnostics.length = _
  rw [hdocument, hstyles, hcolors, hsize, hlength]
  rfl

/-- Options with a length. -/
def gapOptions : Options := { predefined := TextMap.insert ∅ "gap".toList "8px".toList }

/-- A stylesheet that refers to it. -/
def gapSource : Text := "a \x7b padding-left: var(--gap) \x7d".toList

theorem isValueText_gap : IsValueText "8px".toList where
  toIsSegment := isSegment_of_not_mem (by simp [blockMarks])
  ne_nil := by decide
  trimmed := by decide
  uncommented := not_comment_of_not_mem (by decide)

theorem convert_eq_convert_definitionLines_gap :
    (∀ e ∈ gapOptions.predefined.entries,
        IsCustomName e.1 ∧ ReadsAlone e.1 e.2 ∧ stripImportant e.2 = e.2) ∧
      definitionLines gapOptions.predefined = "--gap: 8px;\n".toList ∧
      (convert gapOptions gapSource).document =
        (convert {} ("--gap: 8px;\n".toList ++ gapSource)).document := by
  have hgap : ∀ e ∈ gapOptions.predefined.entries,
      IsCustomName e.1 ∧ ReadsAlone e.1 e.2 ∧ stripImportant e.2 = e.2 := by
    intro e he
    obtain rfl := List.mem_singleton.mp he
    have hname : IsCustomName "gap".toList := ⟨by decide, by decide⟩
    have hreadable := isReadable_of_isValueText hname isValueText_gap (by simp [endsFragment])
    exact ⟨hname, hreadable.readsAlone hname, by decide⟩
  have hlines : definitionLines gapOptions.predefined = "--gap: 8px;\n".toList := by decide
  refine ⟨hgap, hlines, ?_⟩
  rw [← hlines]
  exact (convert_eq_convert_definitionLines gapOptions gapSource hgap).1

/-! ### Markers -/

/-- Options with a color that has a marker. -/
def brandOptions : Options where
  mode := .colors
  predefined := TextMap.insert ∅ "brand".toList "#fff !important".toList

theorem isValueText_brand : IsValueText "#fff !important".toList where
  toIsSegment := isSegment_of_not_mem (by simp [blockMarks])
  ne_nil := by decide
  trimmed := by decide
  uncommented := not_comment_of_not_mem (by decide)

/-- **A color with a marker is one if it is defined, and none if it is given.** -/
theorem colors_ne_colors_definitionLines_brand :
    (∀ e ∈ brandOptions.predefined.entries, IsCustomName e.1 ∧ ReadsAlone e.1 e.2) ∧
      (convert brandOptions []).colors = [] ∧
      (convert { brandOptions with predefined := ∅ }
          (definitionLines brandOptions.predefined ++ [])).colors =
        [{ name := "brand".toList, value := "#FFF".toList }] := by
  have hname : IsCustomName "brand".toList := ⟨by decide, by decide⟩
  have hreadable := isReadable_of_isValueText hname isValueText_brand (by simp [endsFragment])
  have hlines : definitionLines brandOptions.predefined =
      definitionLine "brand".toList "#fff !important".toList := by decide
  have hblank : (Stylesheet.fragmentsOf []).flatMap Fragment.rules = [] := by
    rw [Stylesheet.fragmentsOf, stripComments_nil, flatMap_rules_fragments_nil]
  refine ⟨fun e he => ?_, ?_, ?_⟩
  · obtain rfl := List.mem_singleton.mp he
    exact ⟨hname, hreadable.readsAlone hname⟩
  · have hdefs : definitionsIn brandOptions (Stylesheet.ofText []).rules =
        [("brand".toList, ⟨"#fff !important".toList, 0⟩)] := by
      rw [Stylesheet.ofText, hblank]
      rfl
    exact (colors_convert_of_nodup rfl hdefs (by decide) (by decide)).trans (by decide +kernel)
  · have hread := (hreadable.fragmentsOf_append hname []).1
    rw [hblank] at hread
    have hdefs : definitionsIn { brandOptions with predefined := ∅ }
        (Stylesheet.ofText (definitionLines brandOptions.predefined ++ [])).rules =
          [("brand".toList, ⟨"#fff".toList, 1⟩)] := by
      rw [hlines, Stylesheet.ofText, hread]
      decide
    exact (colors_convert_of_nodup rfl hdefs (by decide) (by decide)).trans (by decide +kernel)

end CssResources
