import CssResources.Proofs.Property.Marking
import CssResources.Proofs.Value.Markers
import CssResources.Proofs.Variable.Mention

/-!
# Text colors

The value of a custom property becomes a color resource, and the value of `color` becomes the color
of a text. The two are read by different functions, which agree on **every value that is a color**
(`CssResources.textColor_trim`).

| the value | as a resource: `CssResources.colorLiteral?` | as a text color: `CssResources.textColor` |
|---|---|---|
| hexadecimal digits of a color | upper case | upper case |
| a function of a color | its literal | its literal |
| a word | upper case | upper case |
| a function of no color | nothing | upper case |
| anything else | nothing | upper case |

The text color is the one that never fails: what is no color stands in upper case. For a function
that means a text color which calls it in capitals (`CssResources.translate_unreadable_function`).
-/

namespace CssResources

/-! ### References between blanks -/

/-- Blanks around a text make no reference, and hide none. -/
theorem hasReference_between_blanks {start stop : Text} (hstart : isAllBlank start = true)
    (hstop : isAllBlank stop = true) (t : Text) :
    hasReference (start ++ (t ++ stop)) = hasReference t := by
  have hright : hasReference (t ++ stop) = hasReference t := by
    induction t with
    | nil =>
      exact not_hasReference_of_not_mem (c := '(') (by decide)
        (not_mem_of_isAllBlank hstop (by decide))
    | cons c t ih =>
      rw [List.cons_append, hasReference_cons, hasReference_cons, ih, ← List.cons_append,
        opening?_append_blank hstop, Option.isSome_map]
  rw [← hright]
  induction start with
  | nil => rfl
  | cons b start ih =>
    rw [isAllBlank_cons, Bool.and_eq_true] at hstart
    rw [List.cons_append, hasReference_cons, opening?_cons_of_isBlank _ hstart.1, ih hstart.2]
    rfl

theorem hasReference_trim (t : Text) : hasReference (trim t) = hasReference t := by
  obtain ⟨start, stop, hstart, hstop, ht⟩ := exists_eq_append_trim t
  conv => rhs; rw [ht]
  rw [hasReference_between_blanks hstart hstop]

/-! ### The two readings of a color -/

/-- A value that begins with the mark of hexadecimal digits calls no function. -/
theorem isColorFunction_of_hash {value digits : Text} (h : trim value = '#' :: digits) :
    isColorFunction value = false := by
  rw [isColorFunction, h]
  rfl

/-- **The text color of a value is the literal of its color**, or the value in upper case if it is
none. -/
theorem textColor_trim (value : Text) :
    textColor (trim value) = (colorLiteral? value).getD (uppercase (trim value)) := by
  have htrim := trim_trim value
  rw [colorLiteral?]
  split
  · rename_i digits hdigits
    rw [hdigits] at htrim ⊢
    rw [textColor, isColorFunction_of_hash htrim, if_neg (by simp)]
    cases Color.ofHex? digits <;> rfl
  · rw [textColor]
    split
    · rfl
    · split <;> rfl

/-! ### The theorem -/

/-- **The text color is the literal of the color that a value is read as**, in one item that is not
commented out. A value that is read as no color stands in upper case instead, and this is so for
functions too. -/
theorem translate_color {value : Text} (hreference : hasReference value = false)
    (hmarker : ¬importantMarker <:+: value) :
    translate "color".toList value =
      .single { attributeName := "textColor".toList,
                value := (colorLiteral? value).getD (uppercase (trim value)),
                commented := false } := by
  have hname : Property.ofName? "color".toList = some .color := by decide
  have hplain : hasReference (trim value) = false := by rw [hasReference_trim, hreference]
  have hcolor : Property.color.translate (trim value) =
      .single { attributeName := "textColor".toList, value := textColor (trim value) } := by
    rw [Property.translate, unlessReference, if_neg (by simp [hplain])]
    rfl
  rw [translate, hname, stripImportant_of_not_isInfix hmarker]
  dsimp only
  rw [hcolor, Translation.map, markUnresolved_eq_self (not_hasReference_textColor _),
    textColor_trim]

theorem translate_color_shade :
    (hasReference " RGB(1 2 3)".toList = false ∧ ¬importantMarker <:+: " RGB(1 2 3)".toList) ∧
      colorLiteral? " RGB(1 2 3)".toList = some "#010203".toList ∧
      translate "color".toList " RGB(1 2 3)".toList =
        .single { attributeName := "textColor".toList, value := "#010203".toList } := by
  have hreference : hasReference " RGB(1 2 3)".toList = false := by decide
  have hmarker : ¬importantMarker <:+: " RGB(1 2 3)".toList := fun hfound =>
    absurd (hfound.subset (List.mem_cons_self ..)) (by decide)
  have hliteral : colorLiteral? " RGB(1 2 3)".toList = some "#010203".toList := by decide +kernel
  refine ⟨⟨hreference, hmarker⟩, hliteral, ?_⟩
  rw [translate_color hreference hmarker, hliteral]
  rfl

/-- **A function of no color becomes a text color.** It is no color for a resource. -/
theorem translate_unreadable_function :
    (hasReference "rgb(1, 2)".toList = false ∧ ¬importantMarker <:+: "rgb(1, 2)".toList ∧
        isColorFunction "rgb(1, 2)".toList = true ∧ colorLiteral? "rgb(1, 2)".toList = none) ∧
      translate "color".toList "rgb(1, 2)".toList =
        .single { attributeName := "textColor".toList, value := "RGB(1, 2)".toList } ∧
      translate "color".toList "rgb(1, 2)".toList ≠ .none := by
  have hmarker : ¬importantMarker <:+: "rgb(1, 2)".toList := fun hfound =>
    absurd (hfound.subset (List.mem_cons_self ..)) (by decide)
  refine ⟨⟨by decide, hmarker, by decide, ?_⟩, ?_, ?_⟩
  all_goals decide +kernel

end CssResources
