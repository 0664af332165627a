import CssResources.Number.Positional
import CssResources.Value.Fraction
import CssResources.Value.Length

/-!
# The characters of numbers

Numbers are read and written with ASCII letters and digits, signs and points only
(`CssResources.isNumeralChar`). So a text that is read as a number holds no parenthesis, and
neither does what is written for one: no number is part of a reference.
-/

namespace CssResources

/-- A character that the text of a number may have. -/
def isNumeralChar (c : Char) : Bool := c.isAlphanum || c == '+' || c == '-' || c == '.'

theorem isNumeralChar_of_isDigit {c : Char} (h : c.isDigit = true) : isNumeralChar c = true := by
  simp [isNumeralChar, Char.isAlphanum, h]

/-! ### Texts that are read as numbers -/

section Reading

variable {t : Text}

/-- A character whose small letter is a letter or a digit is one itself. -/
theorem isAlphanum_of_toLower {c : Char} (h : c.toLower.isAlphanum = true) :
    c.isAlphanum = true := by
  delta Char.toLower at h
  split at h
  · rename_i hletter
    have hupper : c.isUpper = true := by
      delta Char.isUpper
      simpa using hletter
    delta Char.isAlphanum Char.isAlpha
    simp [hupper]
  · exact h

/-- A text that is a word of letters, except for capitals, has letters only. -/
theorem isNumeralChar_of_lowerAscii {word : Text} (hword : word.all Char.isAlphanum = true)
    (h : lowerAscii t = word) : ∀ c ∈ t, isNumeralChar c = true := by
  intro c hc
  have hlower : c.toLower.isAlphanum = true :=
    List.all_eq_true.mp hword _ (h ▸ List.mem_map_of_mem hc)
  simp [isNumeralChar, isAlphanum_of_toLower hlower]

/-- The characters of a text are those after its sign, if they may all stand in a number. -/
theorem isNumeralChar_of_splitSign (h : ∀ c ∈ (splitSign t).2, isNumeralChar c = true) :
    ∀ c ∈ t, isNumeralChar c = true := by
  unfold splitSign at h
  split at h
  · exact List.forall_mem_cons.mpr ⟨by decide, h⟩
  · exact List.forall_mem_cons.mpr ⟨by decide, h⟩
  · exact h

theorem isNumeralChar_of_signed? {magnitude : Text → Nat} {n : Int}
    (h : signed? magnitude t = some n) : ∀ c ∈ t, isNumeralChar c = true := by
  refine isNumeralChar_of_splitSign fun c hc => ?_
  rw [signed?] at h
  dsimp only at h
  by_cases hdigits : (splitSign t).2.all Char.isDigit = true
  · exact isNumeralChar_of_isDigit (List.all_eq_true.mp hdigits c hc)
  · simp [hdigits] at h

theorem isNumeralChar_of_exponent? {n : Int} (h : exponent? t = some n) :
    ∀ c ∈ t, isNumeralChar c = true := by
  cases t with
  | nil => simp
  | cons e t =>
    rw [exponent?] at h
    split at h
    · rename_i he
      refine List.forall_mem_cons.mpr ⟨?_, isNumeralChar_of_signed? h⟩
      rcases he with rfl | rfl <;> decide
    · simp at h

/-- The digits at the start of a text may stand in a number, so the whole text may if the rest
does. -/
theorem isNumeralChar_of_dropWhile (h : ∀ c ∈ t.dropWhile Char.isDigit, isNumeralChar c = true) :
    ∀ c ∈ t, isNumeralChar c = true := by
  intro c hc
  rw [← List.takeWhile_append_dropWhile (p := Char.isDigit) (l := t)] at hc
  rcases List.mem_append.mp hc with hc | hc
  · exact isNumeralChar_of_isDigit (List.all_eq_true.mp List.all_takeWhile c hc)
  · exact h c hc

theorem isNumeralChar_of_numeral {n : Numeral} (h : Numeral.ofText? t = some n) :
    ∀ c ∈ t, isNumeralChar c = true := by
  refine isNumeralChar_of_dropWhile ?_
  rw [Numeral.ofText?] at h
  cases hdrop : t.dropWhile Char.isDigit with
  | nil => simp
  | cons d r =>
    rw [hdrop] at h
    dsimp only at h
    split at h
    -- after a point come digits once more
    · rename_i r' heq
      obtain ⟨rfl, rfl⟩ := List.cons.inj heq
      split at h
      · exact absurd h (by simp)
      · obtain ⟨e, he, -⟩ := Option.map_eq_some_iff.mp h
        exact List.forall_mem_cons.mpr
          ⟨by decide, isNumeralChar_of_dropWhile (isNumeralChar_of_exponent? he)⟩
    · split at h
      · exact absurd h (by simp)
      · obtain ⟨e, he, -⟩ := Option.map_eq_some_iff.mp h
        exact isNumeralChar_of_exponent? he

/-- **A text that is read as a number has no other characters.** -/
theorem isNumeralChar_of_ofText? {x : Binary64} (h : Binary64.ofText? t = some x) :
    ∀ c ∈ t, isNumeralChar c = true := by
  refine isNumeralChar_of_splitSign ?_
  rw [Binary64.ofText?] at h
  dsimp only at h
  split at h
  · rename_i hword
    rcases hword with hword | hword
    · exact isNumeralChar_of_lowerAscii (by decide) hword
    · exact isNumeralChar_of_lowerAscii (by decide) hword
  · split at h
    · rename_i hword
      exact isNumeralChar_of_lowerAscii (by decide) hword
    · obtain ⟨n, hn, -⟩ := Option.map_eq_some_iff.mp h
      exact isNumeralChar_of_numeral hn

end Reading

/-! ### Texts that are written for numbers -/

section Writing

variable {c : Char}

theorem isNumeralChar_of_mem_natText {n : Nat} (h : c ∈ natText n) : isNumeralChar c = true :=
  isNumeralChar_of_isDigit (Nat.isDigit_of_mem_toDigits (by decide) (by decide) h)

theorem isNumeralChar_of_mem_intText {n : Int} (h : c ∈ intText n) : isNumeralChar c = true := by
  cases n with
  | ofNat n => exact isNumeralChar_of_mem_natText h
  | negSucc n =>
    rcases List.mem_cons.mp h with rfl | h
    · decide
    · exact isNumeralChar_of_mem_natText h

theorem isNumeralChar_of_mem_natTextPadded {width n : Nat} (h : c ∈ natTextPadded width n) :
    isNumeralChar c = true := by
  rw [natTextPadded, List.leftpad] at h
  rcases List.mem_append.mp h with h | h
  · rw [List.eq_of_mem_replicate h]
    decide
  · exact isNumeralChar_of_mem_natText h

theorem isNumeralChar_of_mem_positional {n places : Nat} (h : c ∈ positional n places) :
    isNumeralChar c = true := by
  rw [positional] at h
  split at h
  · exact isNumeralChar_of_mem_natText h
  · rcases List.mem_append.mp h with h | h
    · exact isNumeralChar_of_mem_natText h
    · rcases List.mem_cons.mp h with rfl | h
      · decide
      · exact isNumeralChar_of_mem_natTextPadded h

/-- A number written with the decimals that a function gives it. -/
def Binary64.writtenWith (decimals : Nat → Nat × Nat) : Binary64 → Text
  | nan => "NaN".toList
  | infinite negative => if negative then "-inf".toList else "inf".toList
  | finite negative units =>
    let (n, places) := decimals units
    if negative then '-' :: positional n places else positional n places

/-- **A number is written with its shortest decimals.** What holds whatever the decimals are is said
of `Binary64.writtenWith`, as the shortest ones would be computed when the proof is checked. -/
theorem toText_eq_writtenWith (x : Binary64) : x.toText = x.writtenWith Binary64.shortest := by
  delta Binary64.toText Binary64.writtenWith
  generalize Binary64.shortest = decimals
  cases x <;> rfl

theorem isNumeralChar_of_mem_writtenWith {decimals : Nat → Nat × Nat} {x : Binary64}
    (h : c ∈ x.writtenWith decimals) : isNumeralChar c = true := by
  cases x with
  | nan =>
    have hall : "NaN".toList.all isNumeralChar = true := by decide
    exact List.all_eq_true.mp hall c h
  | infinite negative =>
    have hall : (if negative then "-inf".toList else "inf".toList).all isNumeralChar = true := by
      cases negative <;> decide
    exact List.all_eq_true.mp hall c h
  | finite negative units =>
    rw [Binary64.writtenWith] at h
    dsimp only at h
    split at h
    · rcases List.mem_cons.mp h with rfl | h
      · decide
      · exact isNumeralChar_of_mem_positional h
    · exact isNumeralChar_of_mem_positional h

/-- **What is written for a number has no other characters.** -/
theorem isNumeralChar_of_mem_toText {x : Binary64} (h : c ∈ x.toText) :
    isNumeralChar c = true :=
  isNumeralChar_of_mem_writtenWith (toText_eq_writtenWith x ▸ h)

theorem isNumeralChar_of_mem_weightText {percent : Int} (h : c ∈ weightText percent) :
    isNumeralChar c = true := by
  rw [weightText] at h
  rcases List.mem_append.mp h with h | h
  · split at h
    · simp at h
    · exact isNumeralChar_of_mem_natText h
  · rcases List.mem_cons.mp h with rfl | h
    · decide
    · exact isNumeralChar_of_mem_natTextPadded h

/-- **The text of an opacity has no other characters**, whether it is written for a number or stands
as it was read. -/
theorem isNumeralChar_of_opacityText? {value v : Text} (h : opacityText? value = some v) :
    ∀ c ∈ v, isNumeralChar c = true := by
  rw [opacityText?] at h
  split at h
  · obtain ⟨x, -, rfl⟩ := Option.map_eq_some_iff.mp h
    exact fun _ => isNumeralChar_of_mem_toText
  · obtain ⟨x, hx, h⟩ := Option.bind_eq_some_iff.mp h
    split at h
    · obtain rfl := Option.some.inj h
      exact isNumeralChar_of_ofText? hx
    · simp at h

end Writing

end CssResources
