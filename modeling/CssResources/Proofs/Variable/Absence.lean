import CssResources.Proofs.Number.Characters
import CssResources.Proofs.Text.Blank
import CssResources.Value.Color

/-!
# Texts without references

The opening of a reference is written with a small `v` and a parenthesis, so a text that lacks
one of these characters holds no reference (`CssResources.not_hasReference_of_not_mem`). All
that is computed is such a text: numbers and hexadecimal digits have no parentheses, and a text
in capitals has no small `v`, **whatever characters it was made from**
(`CssResources.not_mem_uppercase`).
-/

namespace CssResources

variable {t : Text}

/-! ### The characters of an opening -/

theorem hasReference_cons (c : Char) (t : Text) :
    hasReference (c :: t) = ((opening? (c :: t)).isSome || hasReference t) := by
  rw [hasReference, firstOpening?, hasReference]
  cases opening? (c :: t) with
  | some o => rfl
  | none => cases firstOpening? t <;> rfl

/-- A reference is held whatever comes before it. -/
theorem hasReference_append {t : Text} (h : hasReference t = true) (s : Text) :
    hasReference (s ++ t) = true := by
  induction s with
  | nil => exact h
  | cons x s ih => rw [List.cons_append, hasReference_cons, ih, Bool.or_true]

/-- **A text that holds a reference has the beginning of an opening in it.** -/
theorem isInfix_of_hasReference (h : hasReference t = true) : "var(".toList <:+: t := by
  induction t with
  | nil => simp at h
  | cons x t ih =>
    rw [hasReference_cons, Bool.or_eq_true] at h
    rcases h with h | h
    · obtain ⟨o, ho⟩ := Option.isSome_iff_exists.mp h
      rw [opening?] at ho
      obtain ⟨inner, hinner, -⟩ := Option.bind_eq_some_iff.mp ho
      rw [afterStart?_eq_some_iff.mp hinner]
      exact (List.prefix_append _ _).isInfix
    · exact (ih h).trans (List.suffix_cons x t).isInfix

/-- **A text that lacks a character of the opening holds no reference.** -/
theorem not_hasReference_of_not_mem {c : Char} (hc : c ∈ "var(".toList) (h : c ∉ t) :
    hasReference t = false :=
  Bool.eq_false_iff.mpr fun href => h ((isInfix_of_hasReference href).subset hc)

/-! ### Numbers -/

/-- A text that may be a number has no parenthesis. -/
theorem not_mem_of_isNumeralChar (h : ∀ c ∈ t, isNumeralChar c = true) : '(' ∉ t :=
  fun hmem => absurd (h _ hmem) (by decide)

theorem not_mem_of_finiteNumber? {x : Binary64} (h : finiteNumber? t = some x) : '(' ∉ t := by
  rw [finiteNumber?] at h
  split at h
  · have hread : Binary64.ofText? (trim t) = some x := (Option.filter_eq_some_iff.mp h).1
    exact not_mem_of_not_mem_trim (by decide)
      (not_mem_of_isNumeralChar (isNumeralChar_of_ofText? hread))
  · simp at h

/-- **A percentage holds no reference.** -/
theorem not_hasReference_of_percentage? {n : Int} (h : percentage? t = some n) :
    hasReference t = false := by
  obtain ⟨number, hnumber, h⟩ := Option.bind_eq_some_iff.mp h
  obtain ⟨x, hx, -⟩ := Option.map_eq_some_iff.mp h
  have hopen : '(' ∉ trim t := by
    rw [beforeEnd?_eq_some_iff.mp hnumber, List.mem_append, not_or]
    exact ⟨not_mem_of_finiteNumber? hx, by decide⟩
  exact not_hasReference_of_not_mem (by decide) (not_mem_of_not_mem_trim (by decide) hopen)

/-! ### Capitals -/

/-- A code point that stands for a character is the one of this character, unless it stands for
none and zero is taken. -/
theorem eq_toNat_of_ofNat_eq {n : Nat} {c : Char} (hc : c ≠ '\x00') (h : Char.ofNat n = c) :
    n = c.toNat := by
  by_cases hn : n.isValidChar
  · rw [Char.ofNat, dif_pos hn] at h
    rw [← h]
    rfl
  · rw [Char.ofNat, dif_neg hn] at h
    exact absurd h.symm hc

/-- No character has a small `v` among its capitals. -/
theorem not_mem_upperChar (c : Char) : 'v' ∉ upperChar c := by
  have hascii : ∀ n < 128, (Char.ofNat n).toUpper ≠ 'v' := by decide +kernel
  have hruns : ∀ run ∈ Uppercase.runs,
      run.capital + (run.last - run.first) < 'v'.toNat ∨ 'v'.toNat < run.capital := by
    decide +kernel
  have hexpansions : ∀ e ∈ Uppercase.expansions, 'v'.toNat ∉ e.2 := by decide +kernel
  intro hmem
  rcases mem_upperChar_cases hmem with
    ⟨hc, hv⟩ | ⟨run, hrun, hholds, hv⟩ | ⟨e, he, n, hn, hv⟩ | ⟨hc, rfl⟩
  · have hne : c.toUpper ≠ 'v' := forall_ascii hc hascii
    exact hne hv.symm
  · have hcapital := eq_toNat_of_ofNat_eq (by decide) hv.symm
    have hbounds := Uppercase.Run.capitalOf_bounds hholds
    have hrange := hruns run hrun
    omega
  · refine hexpansions e he ?_
    rwa [← eq_toNat_of_ofNat_eq (by decide) hv.symm]
  · exact absurd hc (by decide)

/-- **A text in capitals has no small `v`.** -/
theorem not_mem_uppercase (t : Text) : 'v' ∉ uppercase t := by
  intro h
  obtain ⟨c, -, hc⟩ := List.mem_flatMap.mp h
  exact not_mem_upperChar c hc

/-! ### Hexadecimal digits -/

theorem not_mem_hexByte (b : UInt8) : '(' ∉ hexByte b := by
  have hdigit : ∀ n < 16, hexDigit n ≠ '(' := by decide
  have hb : b.toNat < 256 := b.toNat_lt
  simp only [hexByte, List.mem_cons, List.not_mem_nil, or_false, not_or]
  exact ⟨(hdigit _ (by omega)).symm, (hdigit _ (by omega)).symm⟩

/-- The literal of a color has no parenthesis. -/
theorem Color.not_mem_hex (c : Color) : '(' ∉ c.hex := by
  rw [Color.hex]
  split <;> simp [not_mem_hexByte]

end CssResources
