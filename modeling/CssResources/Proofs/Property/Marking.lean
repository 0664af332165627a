import CssResources.Proofs.Markup.Dashes
import CssResources.Proofs.Property.Translation
import CssResources.Proofs.Variable.Absence

/-!
# Values that keep a reference

A value that keeps a reference is not converted, and its item is commented out. Both depend on
the **part** of the value that an item is made from, and this file says that they agree: what
is computed holds no reference (`CssResources.IsMadeOf.hasReference_eq`), so an item holds one
exactly if its part does (`CssResources.Property.forall₂_parts`), and it is commented out exactly
then (`CssResources.forall₂_isMarkedFor_translate`).

What is left of a commented item has no two dashes in a row, as the pairs are taken out from
the first dash of each run on (`CssResources.hasDashPair_eraseDashes`).
-/

namespace CssResources

/-! ### Pairs of dashes -/

theorem eraseDashes_pair (t : Text) : eraseDashes ('-' :: '-' :: t) = eraseDashes t := by
  rw [eraseDashes, erase_cons_of_isPrefixOf rfl]
  rfl

theorem eraseDashes_cons {c : Char} {t : Text} (h : ¬(c = '-' ∧ t.head? = some '-')) :
    eraseDashes (c :: t) = c :: eraseDashes t := by
  have hnot : "--".toList.isPrefixOf (c :: t) = false := by
    refine Bool.eq_false_iff.mpr fun hpair => h ?_
    obtain ⟨rest, hrest⟩ := List.isPrefixOf_iff_prefix.mp hpair
    obtain ⟨rfl, rfl⟩ := List.cons.inj hrest
    exact ⟨rfl, rfl⟩
  rw [eraseDashes, erase_cons_of_not_isPrefixOf hnot, eraseDashes]

/-- A first character that is no dash stays. -/
theorem head?_eraseDashes {t : Text} (h : t.head? ≠ some '-') :
    (eraseDashes t).head? = t.head? := by
  cases t with
  | nil => rfl
  | cons c t => rw [eraseDashes_cons fun hpair => h (congrArg some hpair.1), List.head?_cons,
      List.head?_cons]

/-- **No two dashes are in a row when the pairs are erased.** -/
theorem hasDashPair_eraseDashes (t : Text) : hasDashPair (eraseDashes t) = false := by
  fun_induction halveDashes t with
  | case1 t ih => rwa [eraseDashes_pair]
  | case2 c t hne ih =>
    have hborder : ¬(c = '-' ∧ t.head? = some '-') := by
      rintro ⟨rfl, hhead⟩
      obtain ⟨rest, rfl⟩ := List.head?_eq_some_iff.mp hhead
      exact hne rest rfl rfl
    rw [eraseDashes_cons hborder, hasDashPair_cons, ih, Bool.or_false]
    refine decide_eq_false fun hpair => hborder ⟨hpair.1, ?_⟩
    by_contra hhead
    exact hhead ((head?_eraseDashes hhead).symm.trans hpair.2)
  | case3 => rfl

/-! ### Converted values -/

section Converted

variable {value v : Text}

theorem not_hasReference_of_colorHex? (h : colorHex? value = some v) : hasReference v = false := by
  obtain ⟨c, -, rfl⟩ := Option.map_eq_some_iff.mp h
  exact not_hasReference_of_not_mem (by decide) c.not_mem_hex

theorem not_hasReference_uppercase (t : Text) : hasReference (uppercase t) = false :=
  not_hasReference_of_not_mem (by decide) (not_mem_uppercase t)

theorem not_hasReference_textColor (t : Text) : hasReference (textColor t) = false := by
  rcases textColor_cases t with h | h
  · rw [h]
    exact not_hasReference_uppercase t
  · exact not_hasReference_of_colorHex? h

theorem not_hasReference_of_lengthIn? {unit : Text} (hunit : '(' ∉ unit)
    (h : lengthIn? unit value = some v) : hasReference v = false := by
  obtain ⟨n, -, rfl⟩ := Option.map_eq_some_iff.mp h
  have hnumber : '(' ∉ intText n := not_mem_of_isNumeralChar fun _ => isNumeralChar_of_mem_intText
  exact not_hasReference_of_not_mem (c := '(') (by decide) (by simp [hnumber, hunit])

theorem not_hasReference_of_decoration? (h : decoration? value = some v) :
    hasReference v = false := by
  have hwords : ∀ v ∈ ["Underline".toList, "LineThrough".toList], hasReference v = false := by
    decide
  exact hwords v (mem_of_decoration? h)

theorem not_hasReference_of_gravity? (h : gravity? value = some v) : hasReference v = false := by
  have hwords : ∀ v ∈ ["start".toList, "center".toList, "end".toList], hasReference v = false := by
    decide
  exact hwords v (mem_of_gravity? h)

theorem not_hasReference_of_opacityText? (h : opacityText? value = some v) :
    hasReference v = false :=
  not_hasReference_of_not_mem (c := '(') (by decide)
    (not_mem_of_isNumeralChar (isNumeralChar_of_opacityText? h))

/-- **The literal of a color holds no reference.** -/
theorem not_hasReference_of_colorLiteral? (h : colorLiteral? value = some v) :
    hasReference v = false := by
  rcases colorLiteral?_cases h with rfl | h
  · exact not_hasReference_uppercase _
  · exact not_hasReference_of_colorHex? h

end Converted

/-! ### Items and their parts -/

/-- **What is made of a part keeps a reference exactly if the part does**: a part with a reference
stands as it is, and without one nothing with a reference is made of it. -/
theorem IsMadeOf.hasReference_eq {part v : Text} (h : IsMadeOf part v) :
    hasReference v = hasReference part := by
  cases h with
  | kept => rfl
  | color h => rw [h, not_hasReference_textColor]
  | length h hunit hv =>
    have hunits : ∀ unit ∈ [scaledUnit, plainUnit], '(' ∉ unit := by decide
    rw [h, not_hasReference_of_lengthIn? (hunits _ hunit) hv]
  | decoration h hv => rw [h, not_hasReference_of_decoration? hv]
  | gravity h hv => rw [h, not_hasReference_of_gravity? hv]
  | opacity h hv => rw [h, not_hasReference_of_opacityText? hv]
  | zero h =>
    rw [not_hasReference_of_percentage? h]
    rfl
  | weight h =>
    rw [not_hasReference_of_percentage? h]
    exact not_hasReference_of_not_mem (c := '(') (by decide)
      (not_mem_of_isNumeralChar fun _ => isNumeralChar_of_mem_weightText)

/-- **An item keeps a reference exactly if its part does.** It is not marked yet. -/
def Item.KeepsFrom (part : Text) (i : Item) : Prop :=
  hasReference i.value = hasReference part ∧ i.commented = false

/-- **The items of a value keep the references of its parts**, one by one. -/
theorem Property.forall₂_parts (p : Property) {value : Text} (h : (p.translate value).items ≠ []) :
    List.Forall₂ Item.KeepsFrom (p.parts value) (p.translate value).items :=
  (p.forall₂_isMadeOf h).imp fun _ _ hi => ⟨hi.1.hasReference_eq, hi.2⟩

/-! ### Marks -/

/-- **A value is marked right** for the text that it is made from: it is commented out exactly if
the text keeps a reference; it keeps none itself if it is not, and has no two dashes in a row if
it is. -/
structure IsMarkedFor (part value : Text) (commented : Bool) : Prop where
  /-- It is commented out exactly if the text keeps a reference. -/
  commented_iff : commented = true ↔ hasReference part = true
  /-- It keeps no reference if it is not commented out. -/
  not_hasReference : commented = false → hasReference value = false
  /-- It has no two dashes in a row if it is commented out. -/
  not_hasDashPair : commented = true → hasDashPair value = false

/-- An item that keeps no reference stays as it is. -/
theorem markUnresolved_eq_self {i : Item} (h : hasReference i.value = false) :
    markUnresolved i = i := by
  rw [markUnresolved, if_neg (Bool.eq_false_iff.mp h)]

theorem Item.KeepsFrom.isMarkedFor {part : Text} {i : Item} (h : i.KeepsFrom part) :
    IsMarkedFor part (markUnresolved i).value (markUnresolved i).commented := by
  obtain ⟨hreference, hcommented⟩ := h
  rw [markUnresolved]
  split
  · rename_i hi
    exact ⟨by simp [← hreference, hi], by simp, fun _ => hasDashPair_eraseDashes _⟩
  · rename_i hi
    exact ⟨by simp [← hreference, hi, hcommented], fun _ => by simpa using hi, by simp [hcommented]⟩

/-- **The items of a declaration are marked right** for the parts of its value without
markers. -/
theorem forall₂_isMarkedFor_translate {name value : Text} {p : Property}
    (hp : Property.ofName? name = some p) (h : (translate name value).items ≠ []) :
    List.Forall₂ (fun part i => IsMarkedFor part i.value i.commented)
      (p.parts (stripImportant value)) (translate name value).items := by
  have hitems : (translate name value).items =
      (p.translate (stripImportant value)).items.map markUnresolved := by
    rw [translate, hp]
    exact Translation.items_map _ _
  rw [hitems] at h ⊢
  rw [List.forall₂_map_right_iff]
  exact (p.forall₂_parts (by simpa using h)).imp fun _ _ => Item.KeepsFrom.isMarkedFor

end CssResources
