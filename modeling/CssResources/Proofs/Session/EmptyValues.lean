import CssResources.Proofs.Property.Blank
import CssResources.Proofs.Session.Unresolved

/-!
# Resources without a value

A declaration without a value is not read, but of one that has a value there may be **nothing
left** when it is resolved and its markers are stripped
(`CssResources.Declaration.ComesToNothing`). This file says which resources are blank.

| | blank |
|---|---|
| a color | never (`CssResources.isAllBlank_of_colorOf?`) |
| an item | exactly if nothing is left of its declaration (`CssResources.isAllBlank_iff_of_items?`) |

Most declarations of which nothing is left have no item. Those of the four properties that take
every text over have an item without a value, and no report says so
(`CssResources.exists_blank_item_markerSource`).
-/

namespace CssResources

variable {options : Options}

/-! ### Declarations of which nothing is left -/

/-- **Nothing is left of a declaration** that comes after others: its value, resolved and without
its markers, is the empty text. -/
def Declaration.ComesToNothing (options : Options) (before : List Site) (d : Declaration) : Prop :=
  stripImportant (d.resolvedAfter options before) = []

/-- **An item for a style is an item of a declaration** that comes after others. -/
def IsItemOf (options : Options) (sites : List Site) (name : Text) (before : List Site)
    (d : Declaration) (i : Item) : Prop :=
  (∃ r after, sites = before ++ (r, d) :: after ∧ name ∈ r.styleNames options) ∧
    ∃ items, d.items? options before = some items ∧ i ∈ items

/-- **An item is blank exactly if nothing is left of its declaration.** -/
theorem isAllBlank_iff_of_items? {before : List Site} {d : Declaration} {items : List Item}
    {i : Item} (h : d.items? options before = some items) (hi : i ∈ items) :
    isAllBlank i.value = true ↔ d.ComesToNothing options before := by
  obtain ⟨-, -, rfl⟩ := exists_translate_of_items? h
  exact isAllBlank_iff_of_mem_translate hi

/-- **A declaration of which nothing is left has no item**, unless its property takes every text. -/
theorem takesEveryText_of_items? {before : List Site} {d : Declaration} {items : List Item}
    (hnothing : d.ComesToNothing options before) (h : d.items? options before = some items) :
    ∃ p, Property.ofName? d.property = some p ∧ p.takesEveryText = true := by
  obtain ⟨⟨p, hp⟩, hne, rfl⟩ := exists_translate_of_items? h
  refine ⟨p, hp, ?_⟩
  by_contra htakes
  exact hne (items_translate_of_stripImportant hp (Bool.eq_false_iff.mpr htakes) hnothing)

/-! ### Colors -/

/-- **A color is not blank**, be it commented out or not. -/
theorem isAllBlank_of_colorOf? {name value : Text} {c : ColorResource}
    (h : colorOf? name value = some c) : isAllBlank c.value = false := by
  rw [colorOf?] at h
  split at h
  · rename_i hreference
    obtain rfl := Option.some.inj h
    exact isAllBlank_eraseDashes hreference
  · obtain ⟨literal, hliteral, rfl⟩ := Option.map_eq_some_iff.mp h
    exact isAllBlank_of_colorLiteral? hliteral

/-- **A property of which nothing is left has no color.** -/
theorem colorOf?_eq_none {value : Text} (name : Text) (h : stripImportant value = []) :
    colorOf? name value = none := by
  rw [colorOf?, colorLiteral?_eq_none_of_stripImportant h, if_neg]
  · rfl
  · intro hreference
    have hleft := mem_stripImportant_of_mem (c := '(') (by decide) (by decide)
      (paren_mem_of_hasReference hreference)
    rw [h] at hleft
    exact absurd hleft List.not_mem_nil

/-! ### The theorem -/

/-- **Which resources are blank.** Whatever the stylesheet, the options and the mode are, no color
is blank, and an item of a style is blank exactly if nothing is left of its declaration. Of such a
declaration there is no item, unless its property is one of the four that take every text, and of
such a custom property there is no color. -/
theorem convert_isAllBlank_iff (options : Options) (source : Text) :
    let rs := (Stylesheet.ofText source).rules
    let conversion := convert options source
    (∀ c ∈ conversion.colors, isAllBlank c.value = false) ∧
      (∀ style ∈ conversion.styles, ∀ i ∈ style.items,
        (∃ before d, IsItemOf options (sitesOf rs) style.name before d i) ∧
          ∀ before d, IsItemOf options (sitesOf rs) style.name before d i →
            (isAllBlank i.value = true ↔ d.ComesToNothing options before)) ∧
      (∀ (before : List Site) (d : Declaration), d.ComesToNothing options before →
        d.items? options before = none ∨
          ∃ p, Property.ofName? d.property = some p ∧ p.takesEveryText = true) ∧
      ∀ name value, resolvedAmong? (definitionsIn options rs) name = some value →
        stripImportant value = [] → colorAmong? (definitionsIn options rs) name = none := by
  intro rs conversion
  refine ⟨fun c hc => ?_, fun style hstyle i hi => ⟨?_, ?_⟩, fun before d hnothing => ?_,
    fun name value hvalue hnothing => ?_⟩
  · cases hmode : options.mode with
    | styles =>
      have hnil : conversion.colors = [] := colors_gather_of_styles hmode rs
      simp [hnil] at hc
    | colors =>
      obtain ⟨value, name, -, hcolor⟩ := exists_isColorMadeFrom hmode hc
      exact isAllBlank_of_colorOf? hcolor
  · cases hmode : options.mode with
    | styles =>
      rw [((mem_gather_styles_iff hmode).mp hstyle).2] at hi
      obtain ⟨before, ⟨r, d⟩, after, items, hsites, hname, hitems, hi⟩ :=
        exists_items?_of_mem_styleMeaning hi
      exact ⟨before, d, ⟨r, after, hsites, hname⟩, items, hitems, hi⟩
    | colors =>
      have hnil : conversion.styles = [] := styles_gather_of_colors hmode rs
      simp [hnil] at hstyle
  · rintro before d ⟨-, items, hitems, hi⟩
    exact isAllBlank_iff_of_items? hitems hi
  · cases hitems : d.items? options before with
    | none => exact .inl rfl
    | some items => exact .inr (takesEveryText_of_items? hnothing hitems)
  · rw [colorAmong?, hvalue, Option.bind_some]
    exact colorOf?_eq_none name hnothing

/-- A stylesheet with a value that is nothing but a marker. -/
def markerSource : Text := ".a \x7b font-family: !important; \x7d".toList

/-- Its declaration. -/
def markerDeclaration : Declaration := ⟨"font-family".toList, "!important".toList, 1⟩

/-- **A marker alone makes an item without a value.** -/
theorem exists_blank_item_markerSource :
    markerDeclaration.ComesToNothing {} [] ∧
      ∃ style ∈ (convert {} markerSource).styles, ∃ i ∈ style.items, isAllBlank i.value = true := by
  have hplain : firstReference? (stripImportant markerDeclaration.value) = none := by decide
  have hnothing : markerDeclaration.ComesToNothing {} [] := by
    rw [Declaration.ComesToNothing, Declaration.resolvedAfter, resolve_of_none hplain]
    decide
  have hitems : markerDeclaration.items? {} [] =
      some [{ attributeName := "fontFamily".toList, value := [] }] :=
    items?_of_none [] hplain (by decide) (by decide +kernel) (by decide +kernel)
  have hrules : (Stylesheet.ofText markerSource).rules =
      [{ selectors := [".a".toList], declarations := [markerDeclaration], line := 1 }] := by
    decide +kernel
  have hmem : { name := "a".toList
                items := [{ attributeName := "fontFamily".toList, value := [] }] } ∈
      (convert {} markerSource).styles := by
    show _ ∈ (gather {} (Stylesheet.ofText markerSource).rules).styles
    rw [hrules]
    exact mem_gather_of_declaration rfl rfl (by decide) hitems
  exact ⟨hnothing, _, hmem, _, List.mem_singleton_self _, rfl⟩

end CssResources
