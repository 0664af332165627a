import CssResources.Proofs.Number.Positional
import CssResources.Proofs.Property.Marking
import CssResources.Proofs.Text.Parts

/-!
# The text of an opacity

The attribute of an opacity takes a number from 0 to 1. The text of its item is such a number,
whether it stands as it was written or is the hundredth of a percentage, **unless the value is a
percentage of `nan`** (`CssResources.IsPercentOfNaN`): no number bounds what is none, so this one is
written as `NaN` (`CssResources.translate_opacity`).

| the value | the number | why it is from 0 to 1 |
|---|---|---|
| `n%` | the hundredth of `n`, with `n` in the range from 0 to 100 | `Binary64.isBetweenZeroAnd_scale` |
| `n` | `n` | it is looked at |

A number is what `CssResources.Binary64.ofText?` reads, so the text written for the hundredth is
read once more here (`CssResources.Binary64.ofText?_toText`).
-/

namespace CssResources

/-! ### What is no number -/

/-- **The text says that it is no number**, in any case and with any sign. -/
def IsNaNText (t : Text) : Prop := lowerAscii (splitSign t).2 = "nan".toList

instance (t : Text) : Decidable (IsNaNText t) :=
  inferInstanceAs (Decidable (lowerAscii (splitSign t).2 = "nan".toList))

/-- **The value is a percentage of what is no number.** -/
def IsPercentOfNaN (value : Text) : Prop :=
  ∃ number, trim value = number ++ ['%'] ∧ IsNaNText (trim number)

instance (value : Text) : Decidable (IsPercentOfNaN value) :=
  decidable_of_iff ((beforeEnd? ['%'] (trim value)).any fun t => decide (IsNaNText (trim t))) (by
    simp only [Option.any_eq_true, beforeEnd?_eq_some_iff, decide_eq_true_eq, IsPercentOfNaN])

namespace Binary64

variable {x : Binary64} {top : Nat}

theorem nearest_ne_nan (negative : Bool) (num den : Nat) : nearest negative num den ≠ nan := by
  rw [nearest_eq]
  split <;> simp

/-- A numeral is read as a number. -/
theorem toBinary64_ne_nan (negative : Bool) (n : Numeral) : n.toBinary64 negative ≠ nan := by
  rw [Numeral.toBinary64]
  split
  · simp
  · split
    · simp
    · split
      · simp
      · exact nearest_ne_nan negative _ _

/-- **Only the word is read as no number.** -/
theorem ofText?_eq_nan_iff {t : Text} : ofText? t = some nan ↔ IsNaNText t := by
  have hwords : ¬("nan".toList = "inf".toList ∨ "nan".toList = "infinity".toList) := by decide
  rw [ofText?, IsNaNText]
  dsimp only
  constructor
  · intro h
    split at h
    · simp at h
    · split at h
      · assumption
      · obtain ⟨n, -, hn⟩ := Option.map_eq_some_iff.mp h
        exact absurd hn (toBinary64_ne_nan _ n)
  · intro h
    rw [h, if_neg hwords, if_pos rfl]

/-! ### The range of a number -/

/-- **A number is put into the range**, if it is one. -/
theorem isBetweenZeroAnd_clamp (hx : x ≠ nan) : (x.clamp top).isBetweenZeroAnd top = true := by
  cases x with
  | nan => exact absurd rfl hx
  | infinite negative => cases negative <;> simp [clamp, isBetweenZeroAnd]
  | finite negative units =>
    rw [clamp]
    split
    · simp [isBetweenZeroAnd]
    · rename_i hsign
      split
      · simp [isBetweenZeroAnd]
      · rename_i hunits
        rw [isBetweenZeroAnd, decide_eq_true (Nat.not_lt.mp hunits), Bool.and_true]
        cases negative
        · rfl
        · simpa using hsign

/-- **A number of the range divided by its end is one at most.** A zero keeps its sign. -/
theorem isBetweenZeroAnd_scale (htop : 0 < top) (h : x.isBetweenZeroAnd top = true) :
    (x.scale 1 top).isBetweenZeroAnd 1 = true := by
  cases x with
  | nan => simp [isBetweenZeroAnd] at h
  | infinite negative => simp [isBetweenZeroAnd] at h
  | finite negative units =>
    rw [isBetweenZeroAnd, Bool.and_eq_true, decide_eq_true_eq] at h
    obtain ⟨hsign, hunits⟩ := h
    rw [scale, Nat.mul_one]
    cases negative with
    | false =>
      obtain ⟨quotient, hquotient, hnearest⟩ := nearest_of_le false
        (Nat.mul_pos one_pos htop) (hunits.trans_eq (Nat.mul_comm top one))
      rw [hnearest]
      simpa [isBetweenZeroAnd] using hquotient
    | true =>
      -- a negative number of the range is a zero, and its quotient is one
      obtain rfl : units = 0 := by simpa using hsign
      have hzero : 2 * (0 * one) < one * top := by
        rw [Nat.zero_mul, Nat.mul_zero]
        exact Nat.mul_pos one_pos htop
      rw [nearest_of_lt true hzero]
      simp [isBetweenZeroAnd]

theorem isNumber_scale (x : Binary64) (num : Nat) {den : Nat} (hden : 0 < den) :
    (x.scale num den).IsNumber := by
  cases x with
  | nan => exact isNumber_nan
  | infinite negative => exact isNumber_infinite negative
  | finite negative units =>
    rw [scale]
    exact isNumber_nearest negative (Nat.mul_pos one_pos hden)

end Binary64

/-! ### The text of an opacity -/

/-- **The text is a number from 0 to 1.** -/
def IsFraction (t : Text) : Prop :=
  ∃ x, Binary64.ofText? t = some x ∧ x.isBetweenZeroAnd 1 = true

theorem not_isFraction_nan : ¬IsFraction "NaN".toList := by
  rintro ⟨x, hread, hrange⟩
  rw [Binary64.ofText?_eq_nan_iff.mpr (by decide)] at hread
  obtain rfl := Option.some.inj hread
  cases hrange

section OpacityText

variable {value v : Text}

/-- The hundredth of a percentage is a number from 0 to 1. -/
theorem isFraction_of_percent {x : Binary64} (hx : x ≠ .nan) :
    IsFraction ((x.clamp 100).scale 1 100).toText :=
  ⟨_, Binary64.ofText?_toText (Binary64.isNumber_scale _ 1 (by decide)),
    Binary64.isBetweenZeroAnd_scale (by decide) (Binary64.isBetweenZeroAnd_clamp hx)⟩

/-- **The text of an opacity is a number from 0 to 1**, if the value is no percentage of what is no
number. -/
theorem isFraction_of_opacityText? (h : opacityText? value = some v)
    (hnumber : ¬IsPercentOfNaN value) : IsFraction v := by
  rw [opacityText?] at h
  split at h
  · rename_i number hpercent
    obtain ⟨x, hread, rfl⟩ := Option.map_eq_some_iff.mp h
    refine isFraction_of_percent fun hnan => hnumber ?_
    refine ⟨number, beforeEnd?_eq_some_iff.mp hpercent, ?_⟩
    rw [← Binary64.ofText?_eq_nan_iff, hread, hnan]
  · obtain ⟨x, hread, h⟩ := Option.bind_eq_some_iff.mp h
    split at h
    · rename_i hrange
      obtain rfl := Option.some.inj h
      exact ⟨x, hread, hrange⟩
    · cases h

/-- A percentage of what is no number is written as none. -/
theorem opacityText?_of_isPercentOfNaN (h : IsPercentOfNaN value) :
    opacityText? value = some "NaN".toList := by
  obtain ⟨number, hpercent, hnan⟩ := h
  rw [← Binary64.ofText?_eq_nan_iff] at hnan
  rw [opacityText?, beforeEnd?_eq_some_iff.mpr hpercent]
  dsimp only
  rw [hnan]
  rfl

end OpacityText

/-! ### The theorem -/

/-- **The opacity of a value without a reference is one item**, or none if it has no text. -/
theorem items_translate_opacity (value : Text) :
    (translate "opacity".toList value).items =
      (unlessReference opacityText? (stripImportant value)).toList.map fun v =>
        markUnresolved { attributeName := "alpha".toList, value := v } := by
  have hname : Property.ofName? "opacity".toList = some .opacity := by decide
  rw [translate, hname]
  dsimp only
  rw [Translation.items_map, Property.translate]
  cases unlessReference opacityText? (stripImportant value) <;> rfl

/-- **An item that an opacity gives and that is not commented out has a number from 0 to 1 as its
text**, exactly if the value is no percentage of what is no number. Otherwise it has `NaN`. -/
theorem translate_opacity {value : Text} {i : Item}
    (hi : i ∈ (translate "opacity".toList value).items) (hcommented : i.commented = false) :
    i.name = "android:alpha".toList ∧
      (¬IsPercentOfNaN (stripImportant value) → IsFraction i.value) ∧
      (IsPercentOfNaN (stripImportant value) → i.value = "NaN".toList ∧ ¬IsFraction i.value) := by
  rw [items_translate_opacity] at hi
  obtain ⟨v, hv, rfl⟩ := List.mem_map.mp hi
  rw [Option.mem_toList] at hv
  rw [unlessReference] at hv
  split at hv
  · -- a value that keeps a reference is commented out
    rename_i hreference
    obtain rfl := Option.some.inj hv
    rw [markUnresolved, if_pos hreference] at hcommented
    cases hcommented
  · rw [markUnresolved_eq_self (not_hasReference_of_opacityText? hv)]
    refine ⟨rfl, isFraction_of_opacityText? hv, fun hnan => ?_⟩
    rw [opacityText?_of_isPercentOfNaN hnan] at hv
    obtain rfl := Option.some.inj hv
    exact ⟨rfl, not_isFraction_nan⟩

/-- A percentage with blanks and a marker. -/
def eighthValue : Text := " 12.5 % !important".toList

/-- The item of an eighth. -/
def eighthItem : Item := { attributeName := "alpha".toList, value := "0.125".toList }

theorem translate_opacity_eighth :
    (eighthItem ∈ (translate "opacity".toList eighthValue).items ∧ eighthItem.commented = false) ∧
      ¬IsPercentOfNaN (stripImportant eighthValue) ∧ IsFraction "0.125".toList := by
  have hmem : eighthItem ∈ (translate "opacity".toList eighthValue).items := by decide +kernel
  have hnumber : ¬IsPercentOfNaN (stripImportant eighthValue) := by decide
  exact ⟨⟨hmem, rfl⟩, hnumber, (translate_opacity hmem rfl).2.1 hnumber⟩

/-- **A percentage of what is no number gives an item**, and its text is no number. -/
theorem translate_opacity_percent_of_nan :
    translate "opacity".toList "nan%".toList =
        .single { attributeName := "alpha".toList, value := "NaN".toList, commented := false } ∧
      ¬IsFraction "NaN".toList :=
  ⟨by decide +kernel, not_isFraction_nan⟩

end CssResources
