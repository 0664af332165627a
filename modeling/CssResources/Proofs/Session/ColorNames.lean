import CssResources.Proofs.ResourceName
import CssResources.Proofs.Session.ColorWalk

/-!
# The names of colors

A conversion for colors gives each custom property **one color at most**, under the resource name
of the property. Properties are told apart by the names that they are defined with, and colors
are named by what becomes of these. So the names of the colors are distinct exactly if no two of
the properties that have one look alike (`CssResources.names_colors_convert`). A dash and an
underscore do (`CssResources.names_colors_dashSource`).
-/

namespace CssResources

variable {options : Options}

/-- **The custom properties that have a color**, in the order of their first definitions. -/
def coloredProperties (defs : List (Text × Definition)) : List Text :=
  (defs.map Prod.fst).eraseDups.filter fun name => (colorAmong? defs name).isSome

theorem nodup_coloredProperties (defs : List (Text × Definition)) :
    (coloredProperties defs).Nodup :=
  (nodup_eraseDups _).filter _

/-- **A color has the resource name of its property**, also one that is commented out. -/
theorem name_of_colorAmong? {defs : List (Text × Definition)} {name : Text} {color : ColorResource}
    (h : colorAmong? defs name = some color) : color.name = resourceName name := by
  obtain ⟨value, -, hcolor⟩ := Option.bind_eq_some_iff.mp h
  rw [colorOf?] at hcolor
  split at hcolor
  · obtain rfl := Option.some.inj hcolor
    rfl
  · obtain ⟨literal, -, rfl⟩ := Option.map_eq_some_iff.mp hcolor
    rfl

/-- The colors of properties are named by those that have one. -/
theorem map_name_filterMap_colorAmong? (defs : List (Text × Definition)) (names : List Text) :
    (names.filterMap (colorAmong? defs)).map ColorResource.name =
      (names.filter fun name => (colorAmong? defs name).isSome).map resourceName := by
  induction names with
  | nil => rfl
  | cons name names ih =>
    cases h : colorAmong? defs name with
    | none => simp [h, ih]
    | some color => simp [h, ih, name_of_colorAmong? h]

/-- **Resource names are distinct exactly if no two of the names look alike.** -/
theorem nodup_map_resourceName_iff {names : List Text} :
    (names.map resourceName).Nodup ↔
      names.Pairwise fun p q => ¬List.Forall₂ LookAlike p q := by
  rw [List.Nodup, List.pairwise_map]
  simp only [Ne, resourceName_eq_iff]

/-- **Each color of a stylesheet belongs to a custom property of its own**, and has its resource
name. So the names of the colors are distinct exactly if no two of these properties look alike. -/
theorem names_colors_convert (options : Options) (hmode : options.mode = .colors)
    (source : Text) :
    let properties := coloredProperties (definitionsIn options (Stylesheet.ofText source).rules)
    let names := (convert options source).colors.map ColorResource.name
    properties.Nodup ∧ names = properties.map resourceName ∧
      (names.Nodup ↔ properties.Pairwise fun p q => ¬List.Forall₂ LookAlike p q) := by
  intro properties names
  have hnames : names = properties.map resourceName := by
    simp only [names]
    rw [colors_convert hmode, map_name_filterMap_colorAmong?]
    rfl
  refine ⟨nodup_coloredProperties _, hnames, ?_⟩
  rw [hnames, nodup_map_resourceName_iff]

/-- A stylesheet with two properties whose names differ in case, and one that has no color. -/
def inkSource : Text := "--ink: #fff; --Ink: red; --gap: 8px;".toList

theorem names_colors_convert_ink :
    let options : Options := { mode := .colors }
    options.mode = .colors ∧ ((convert options inkSource).colors.map ColorResource.name).Nodup := by
  intro options
  have hdefs : definitionsIn options (Stylesheet.ofText inkSource).rules =
      [("ink".toList, ⟨"#fff".toList, 1⟩), ("Ink".toList, ⟨"red".toList, 1⟩),
       ("gap".toList, ⟨"8px".toList, 1⟩)] := by decide +kernel
  obtain ⟨-, -, hnodup⟩ := names_colors_convert options rfl inkSource
  refine ⟨rfl, hnodup.mpr ?_⟩
  rw [hdefs]
  refine List.Pairwise.sublist List.filter_sublist ?_
  decide

/-- A stylesheet with two properties whose names differ in a dash and an underscore. -/
def dashSource : Text := "--a-b: #fff; --a_b: #000;".toList

/-- **A dash and an underscore look alike**: two properties that differ in one give two colors of
one name. -/
theorem names_colors_dashSource :
    let colors := (convert { mode := .colors } dashSource).colors
    colors = [{ name := "a_b".toList, value := "#FFF".toList },
        { name := "a_b".toList, value := "#000".toList }] ∧
      ¬(colors.map ColorResource.name).Nodup := by
  intro colors
  have hdefs : definitionsIn { mode := .colors } (Stylesheet.ofText dashSource).rules =
      [("a-b".toList, ⟨"#fff".toList, 1⟩), ("a_b".toList, ⟨"#000".toList, 1⟩)] := by
    decide +kernel
  have hcolors : colors = [{ name := "a_b".toList, value := "#FFF".toList },
      { name := "a_b".toList, value := "#000".toList }] :=
    (colors_convert_of_nodup rfl hdefs (by decide) (by decide)).trans (by decide +kernel)
  refine ⟨hcolors, ?_⟩
  rw [hcolors]
  decide

end CssResources
