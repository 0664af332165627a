import CssResources.Proofs.Selector.Grammar
import CssResources.Proofs.Session.ColorNames
import CssResources.Proofs.Session.Unresolved

/-!
# The names of resources

A resource is of use only under a name of letters, digits, underscores and dots, with one of them
at least (`CssResources.IsResourceName`). This file says where the names of a conversion come from,
and that **all of them are names of resources but one**.

| the name of | comes from | it is a name of resources |
|---|---|---|
| a style | a class or an element | `CssResources.Options.isResourceName_of_styleName?` |
| a color | a custom property that has a name | `CssResources.name_eq_nil_iff_of_mem_colors` |

A class and an element have a name, as the grammar of selectors asks for one. A custom property is
named by what follows the two dashes, and nothing asks for a character there: two dashes alone are
the property **without a name** (`CssResources.DefinesNameless`). Its color is the exception
(`CssResources.colors_namelessSource`).
-/

namespace CssResources

variable {options : Options} {name : Text}

/-! ### Names of resources -/

/-- **The text can be the name of a resource.** -/
def IsResourceName (name : Text) : Prop := name ≠ [] ∧ ∀ c ∈ name, isResourceChar c = true

/-- The name of a resource stays one with such characters in front. -/
theorem IsResourceName.append {start : Text} (hstart : ∀ c ∈ start, isResourceChar c = true)
    (h : IsResourceName name) : IsResourceName (start ++ name) :=
  ⟨List.append_ne_nil_of_right_ne_nil start h.1, List.forall_mem_append.mpr ⟨hstart, h.2⟩⟩

/-- The name of a style can be the name of a resource. -/
theorem Selector.IsStyleName.isResourceName (h : IsStyleName name) : IsResourceName name := by
  obtain ⟨c, rest, rfl, hc, hrest⟩ := h
  refine ⟨List.cons_ne_nil _ _, List.forall_mem_cons.mpr ⟨?_, fun d hd => ?_⟩⟩
  · rcases hc with hc | rfl
    · simp [isResourceChar, Char.isAlphanum, hc]
    · decide
  · rcases hrest d hd with hd | rfl
    · simp [isResourceChar, hd]
    · decide

/-! ### Styles -/

/-- **Every style is named as a resource is**, if what names begin with has such characters only. -/
theorem Options.isResourceName_of_styleName?
    (hstart : ∀ c ∈ options.stylePrefix?.getD [], isResourceChar c = true) {selector : Text}
    (h : options.styleName? selector = some name) : IsResourceName name := by
  obtain ⟨bare, hbare, rfl⟩ := Option.map_eq_some_iff.mp h
  exact ((Selector.isNamed_ofText selector).isStyleName hbare).isResourceName.append hstart

/-- A style has the name of a selector. -/
theorem exists_styleName?_of_mem_styles (hmode : options.mode = .styles) {rs : List Rule}
    {style : Style} (h : style ∈ (gather options rs).styles) :
    ∃ selector, options.styleName? selector = some style.name := by
  obtain ⟨r, -, hname⟩ := List.mem_flatMap.mp ((mem_gather_styles_iff hmode).mp h).1
  obtain ⟨selector, -, hselector⟩ := List.mem_filterMap.mp hname
  exact ⟨selector, hselector⟩

/-! ### Colors -/

/-- **The custom property without a name is defined**: from outside, by a name of nothing but pairs
of dashes, or in a rule, by two dashes. -/
def DefinesNameless (options : Options) (rs : List Rule) : Prop :=
  (∃ e ∈ options.predefined.entries, bareName e.1 = []) ∨
    ∃ r ∈ rs, ∃ d ∈ r.declarations, d.property = "--".toList

/-- A color is that of a custom property that is defined. -/
theorem exists_definition_of_colorAmong? {defs : List (Text × Definition)} {c : ColorResource}
    (h : colorAmong? defs name = some c) : ∃ d, (name, d) ∈ defs := by
  obtain ⟨value, hvalue, -⟩ := Option.bind_eq_some_iff.mp h
  obtain ⟨⟨before, d⟩, hlast, -⟩ := Option.map_eq_some_iff.mp hvalue
  obtain ⟨after, hdefs⟩ := exists_eq_append_of_lastDefinition? hlast
  exact ⟨d, by simp [hdefs]⟩

theorem definesNameless_of_mem {rs : List Rule} {d : Definition}
    (h : ([], d) ∈ definitionsIn options rs) : DefinesNameless options rs := by
  rcases List.mem_append.mp h with h | h
  · obtain ⟨e, he, hname⟩ := List.mem_map.mp h
    exact .inl ⟨e, he, (Prod.mk.inj hname).1⟩
  · obtain ⟨d, hd, hdefines⟩ := List.mem_filterMap.mp h
    obtain ⟨r, hr, hd⟩ := List.mem_flatMap.mp hd
    obtain ⟨bare, hbare, hname⟩ := Option.map_eq_some_iff.mp hdefines
    rw [(Prod.mk.inj hname).1] at hbare
    exact .inr ⟨r, hr, d, hd, (afterStart?_eq_some_iff.mp hbare).trans (List.append_nil _)⟩

/-- A color of a session is that of a custom property. -/
theorem exists_colorAmong?_of_mem_colors (hmode : options.mode = .colors) {rs : List Rule}
    {c : ColorResource} (hc : c ∈ (gather options rs).colors) :
    ∃ name, colorAmong? (definitionsIn options rs) name = some c := by
  obtain ⟨value, name, hvalue, hcolor⟩ := exists_isColorMadeFrom hmode hc
  exact ⟨name, by rw [colorAmong?, hvalue, Option.bind_some, hcolor]⟩

/-- **A color without a name is that of the custom property without one.** -/
theorem name_eq_nil_iff_of_mem_colors (hmode : options.mode = .colors) {rs : List Rule}
    {c : ColorResource} (hc : c ∈ (gather options rs).colors) :
    c.name = [] ↔ colorAmong? (definitionsIn options rs) [] = some c := by
  constructor
  · intro hnil
    obtain ⟨name, hcolor⟩ := exists_colorAmong?_of_mem_colors hmode hc
    have hname : name = [] :=
      List.map_eq_nil_iff.mp ((name_of_colorAmong? hcolor).symm.trans hnil)
    rwa [hname] at hcolor
  · exact fun hcolor => name_of_colorAmong? hcolor

/-! ### The theorem -/

/-- **Every name of a conversion is the name of a resource**, whatever the stylesheet, the options
and the mode are, if what the names of styles begin with has characters of such names only. There is
one exception: the color of the custom property without a name, if that is defined. -/
theorem convert_isResourceName (options : Options)
    (hstart : ∀ c ∈ options.stylePrefix?.getD [], isResourceChar c = true) (source : Text) :
    let rs := (Stylesheet.ofText source).rules
    let conversion := convert options source
    (∀ style ∈ conversion.styles, IsResourceName style.name) ∧
      (∀ c ∈ conversion.colors, (∀ x ∈ c.name, isResourceChar x = true) ∧
        (c.name = [] ↔ colorAmong? (definitionsIn options rs) [] = some c)) ∧
      (¬DefinesNameless options rs → ∀ c ∈ conversion.colors, IsResourceName c.name) := by
  intro rs conversion
  cases hmode : options.mode with
  | styles =>
    have hnil : conversion.colors = [] := colors_gather_of_styles hmode rs
    refine ⟨fun style hstyle => ?_, by simp [hnil], by simp [hnil]⟩
    obtain ⟨selector, hselector⟩ := exists_styleName?_of_mem_styles hmode hstyle
    exact options.isResourceName_of_styleName? hstart hselector
  | colors =>
    have hnil : conversion.styles = [] := styles_gather_of_colors hmode rs
    have hchars (c : ColorResource) (hc : c ∈ conversion.colors) :
        ∀ x ∈ c.name, isResourceChar x = true := by
      obtain ⟨name, hcolor⟩ := exists_colorAmong?_of_mem_colors hmode hc
      rw [name_of_colorAmong? hcolor]
      exact fun _ => isResourceChar_of_mem_resourceName
    refine ⟨by simp [hnil], fun c hc => ⟨hchars c hc, name_eq_nil_iff_of_mem_colors hmode hc⟩,
      fun hnameless c hc => ⟨fun hempty => hnameless ?_, hchars c hc⟩⟩
    obtain ⟨d, hd⟩ :=
      exists_definition_of_colorAmong? ((name_eq_nil_iff_of_mem_colors hmode hc).mp hempty)
    exact definesNameless_of_mem hd

/-- Options with what names of styles begin with, and a custom property under a name that resources
cannot have. -/
def chipOptions (mode : Mode) : Options where
  mode
  stylePrefix? := some "App.Theme_".toList
  predefined := TextMap.insert ∅ "--ink é".toList "blue".toList

/-- A stylesheet with a class, an element, and custom properties, one of them with nothing but a
dash for a name. -/
def chipSource : Text :=
  ".chip-2 \x7b color: red; --brand-1: red \x7d h1, .a:hover \x7b ---: #fff; --x: 1px \x7d".toList

theorem definitionsIn_chipSource :
    definitionsIn (chipOptions .colors) (Stylesheet.ofText chipSource).rules =
      [("ink é".toList, ⟨"blue".toList, 0⟩), ("brand-1".toList, ⟨"red".toList, 1⟩),
        ("-".toList, ⟨"#fff".toList, 1⟩), ("x".toList, ⟨"1px".toList, 1⟩)] := by
  decide +kernel

theorem names_colors_chipSource :
    (convert (chipOptions .colors) chipSource).colors.map ColorResource.name =
      ["ink__".toList, "brand_1".toList, "_".toList] := by
  rw [colors_convert_of_nodup rfl definitionsIn_chipSource (by decide) (by decide)]
  decide +kernel

theorem convert_isResourceName_chip :
    let rs := (Stylesheet.ofText chipSource).rules
    let styles := (convert (chipOptions .styles) chipSource).styles
    let colors := (convert (chipOptions .colors) chipSource).colors
    (∀ mode, ∀ c ∈ (chipOptions mode).stylePrefix?.getD [], isResourceChar c = true) ∧
      ¬DefinesNameless (chipOptions .colors) rs ∧
      styles.map Style.name = ["App.Theme_chip_2".toList, "App.Theme_H1".toList] ∧
      (∀ style ∈ styles, IsResourceName style.name) ∧
      colors.map ColorResource.name = ["ink__".toList, "brand_1".toList, "_".toList] ∧
      ∀ c ∈ colors, IsResourceName c.name := by
  intro rs styles colors
  have hstart : ∀ c ∈ "App.Theme_".toList, isResourceChar c = true :=
    List.all_eq_true.mp (by decide)
  have hnameless : ¬DefinesNameless (chipOptions .colors) rs := by
    unfold DefinesNameless
    decide +kernel
  have hstyles : styles.map Style.name =
      ["App.Theme_chip_2".toList, "App.Theme_H1".toList] := by
    have hmeaning : styles = meaningOf (chipOptions .styles) rs :=
      gather_styles_eq_meaningOf (chipOptions .styles) rfl _
    rw [hmeaning, meaningOf, List.map_map]
    decide +kernel
  exact ⟨fun _ => hstart, hnameless, hstyles,
    (convert_isResourceName (chipOptions .styles) hstart chipSource).1,
    names_colors_chipSource,
    (convert_isResourceName (chipOptions .colors) hstart chipSource).2.2 hnameless⟩

/-- A stylesheet with a value for the custom property without a name. -/
def namelessSource : Text := "--: red;".toList

/-- **Two dashes alone give a color without a name.** -/
theorem colors_namelessSource :
    (convert { mode := .colors } namelessSource).colors = [{ name := [], value := "RED".toList }] ∧
      ¬IsResourceName [] := by
  have hdefs : definitionsIn { mode := .colors } (Stylesheet.ofText namelessSource).rules =
      [([], ⟨"red".toList, 1⟩)] := by decide +kernel
  refine ⟨?_, fun h => h.1 rfl⟩
  exact (colors_convert_of_nodup rfl hdefs (by decide) (by decide)).trans (by decide +kernel)

end CssResources
