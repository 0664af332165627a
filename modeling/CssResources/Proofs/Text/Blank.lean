import CssResources.Variable.Reference
import Mathlib.Data.List.TakeWhile

/-!
# Blanks at the ends of a text

What trimming takes away (`CssResources.exists_eq_append_trim`), and which characters
are never blank. Blank characters lie outside the ASCII characters with a shape, so the
marks of a reference – its letters, dashes, commas and parentheses – are none of them.
-/

namespace CssResources

/-! ### Where blank characters lie -/

/-- What holds of the characters with the first code points holds of each character that has one
of them. -/
@[elab_as_elim]
theorem forall_ascii {P : Char → Prop} {c : Char} (hc : c.toNat < 128)
    (h : ∀ n < 128, P (Char.ofNat n)) : P c := by
  have hP := h c.toNat hc
  rwa [Char.ofNat_toNat] at hP

/-- **Where the blank characters lie**: in the spaces and controls of ASCII, in the block of
punctuation, and in four places of their own. -/
theorem toNat_cases_of_isBlank {c : Char} (h : isBlank c = true) :
    c.toNat ≤ 0x20 ∨ c.toNat ∈ [0x85, 0xA0, 0x1680, 0x3000] ∨
      0x2000 ≤ c.toNat ∧ c.toNat ≤ 0x205F := by
  simp only [isBlank, Bool.or_eq_true, Bool.and_eq_true, decide_eq_true_eq, beq_iff_eq,
    Char.le_def, UInt32.le_iff_toNat_le] at h
  rcases h with
    ((((((((((⟨h₁, h₂⟩ | rfl) | rfl) | rfl) | rfl) | ⟨h₁, h₂⟩) | rfl) | rfl) | rfl) | rfl) | rfl)
  · exact .inl (Nat.le_trans h₂ (by decide))
  all_goals first
    | decide
    | exact .inr (.inr ⟨Nat.le_trans (by decide) h₁, Nat.le_trans h₂ (by decide)⟩)

/-- A blank is a space or a control, or lies outside ASCII. -/
theorem toNat_of_isBlank {c : Char} (h : isBlank c = true) : c.toNat ≤ 32 ∨ 133 ≤ c.toNat := by
  rcases toNat_cases_of_isBlank h with hascii | hone | hrange
  · exact .inl hascii
  · have hbound : ∀ n ∈ [0x85, 0xA0, 0x1680, 0x3000], 133 ≤ n := by decide
    exact .inr (hbound _ hone)
  · exact .inr (Nat.le_trans (by decide) hrange.1)

/-- Letters and digits lie between the zero and the small z. -/
theorem toNat_of_isAlphanum {c : Char} (h : c.isAlphanum = true) :
    48 ≤ c.toNat ∧ c.toNat ≤ 122 := by
  delta Char.isAlphanum Char.isAlpha Char.isUpper Char.isLower Char.isDigit at h
  simp only [Bool.or_eq_true, Bool.and_eq_true, decide_eq_true_eq, ge_iff_le,
    UInt32.le_iff_toNat_le] at h
  rcases h with (⟨h₁, h₂⟩ | ⟨h₁, h₂⟩) | ⟨h₁, h₂⟩
  all_goals exact ⟨Nat.le_trans (by decide) h₁, Nat.le_trans h₂ (by decide)⟩

/-- A letter or a digit is no blank. -/
theorem isBlank_of_isAlphanum {c : Char} (h : c.isAlphanum = true) : isBlank c = false := by
  rcases hb : isBlank c with _ | _
  · rfl
  · have h₁ := toNat_of_isBlank hb
    have h₂ := toNat_of_isAlphanum h
    omega

/-- A blank belongs to no name. -/
theorem isVariableChar_of_isBlank {c : Char} (h : isBlank c = true) :
    isVariableChar c = false := by
  rcases hv : isVariableChar c with _ | _
  · rfl
  · rw [isVariableChar, Bool.or_eq_true, Bool.or_eq_true, beq_iff_eq, beq_iff_eq] at hv
    rcases hv with (hv | rfl) | rfl
    · exact absurd h (by simp [isBlank_of_isAlphanum hv])
    · exact absurd h (by decide)
    · exact absurd h (by decide)

/-! ### Texts of blanks -/

theorem isBlank_of_mem_isAllBlank {t : Text} {c : Char} (h : isAllBlank t = true) (hc : c ∈ t) :
    isBlank c = true :=
  List.all_eq_true.mp h c hc

/-- A character that is not blank is not in a text of blanks. -/
theorem not_mem_of_isAllBlank {t : Text} {c : Char} (h : isAllBlank t = true)
    (hc : isBlank c = false) : c ∉ t := fun hmem => by
  simp [isBlank_of_mem_isAllBlank h hmem] at hc

/-- A text with a character that is not blank is no text of blanks. -/
theorem isAllBlank_eq_false_of_mem {t : Text} {c : Char} (hc : isBlank c = false) (h : c ∈ t) :
    isAllBlank t = false :=
  Bool.eq_false_iff.mpr fun ht => not_mem_of_isAllBlank ht hc h

@[simp] theorem isAllBlank_nil : isAllBlank [] = true := rfl

@[simp] theorem isAllBlank_cons (c : Char) (t : Text) :
    isAllBlank (c :: t) = (isBlank c && isAllBlank t) := rfl

/-- Nothing is left at the start of a text of blanks. -/
theorem trimStart_eq_nil_iff {t : Text} : trimStart t = [] ↔ isAllBlank t = true := by
  simp [trimStart, isAllBlank, List.dropWhile_eq_nil_iff]

/-! ### Trimming -/

theorem isAllBlank_takeWhile (t : Text) : isAllBlank (t.takeWhile isBlank) = true :=
  List.all_takeWhile

/-- A text is what its start is trimmed of, and the rest. -/
theorem takeWhile_append_trimStart (t : Text) : t.takeWhile isBlank ++ trimStart t = t :=
  List.takeWhile_append_dropWhile

/-- A text is its end trimmed, and blanks. -/
theorem exists_eq_trimEnd_append (t : Text) :
    ∃ blanks, isAllBlank blanks = true ∧ t = trimEnd t ++ blanks := by
  refine ⟨(t.reverse.takeWhile isBlank).reverse, ?_, ?_⟩
  · rw [isAllBlank, List.all_reverse]
    exact isAllBlank_takeWhile t.reverse
  · rw [trimEnd, ← List.reverse_append, List.takeWhile_append_dropWhile, List.reverse_reverse]

theorem trimEnd_isPrefix (t : Text) : trimEnd t <+: t := by
  obtain ⟨blanks, -, h⟩ := exists_eq_trimEnd_append t
  exact ⟨blanks, h.symm⟩

/-- **Trimming takes blanks away at the two ends, and nothing else.** -/
theorem exists_eq_append_trim (t : Text) :
    ∃ start stop, isAllBlank start = true ∧ isAllBlank stop = true ∧
      t = start ++ (trim t ++ stop) := by
  obtain ⟨stop, hstop, h⟩ := exists_eq_trimEnd_append (trimStart t)
  refine ⟨t.takeWhile isBlank, stop, isAllBlank_takeWhile t, hstop, ?_⟩
  rw [trim, ← h, takeWhile_append_trimStart]

/-- What is left after trimming stands in the text in one piece. -/
theorem trim_isInfix (t : Text) : trim t <:+: t := by
  obtain ⟨start, stop, -, -, h⟩ := exists_eq_append_trim t
  exact ⟨start, stop, by rw [List.append_assoc, ← h]⟩

theorem trim_sublist (t : Text) : (trim t).Sublist t := (trim_isInfix t).sublist

/-- What is left after trimming has every character that is not blank. -/
theorem not_mem_of_not_mem_trim {t : Text} {c : Char} (hc : isBlank c = false) (h : c ∉ trim t) :
    c ∉ t := by
  obtain ⟨start, stop, hstart, hstop, ht⟩ := exists_eq_append_trim t
  rw [ht]
  simp only [List.mem_append, not_or]
  exact ⟨not_mem_of_isAllBlank hstart hc, h, not_mem_of_isAllBlank hstop hc⟩

/-- Trimming makes no text longer. -/
theorem length_trim_le (t : Text) : (trim t).length ≤ t.length := (trim_sublist t).length_le

/-! ### Blanks around a text -/

section Around

variable {start stop : Text} (hstart : isAllBlank start = true) (hstop : isAllBlank stop = true)

theorem isAllBlank_append (s t : Text) :
    isAllBlank (s ++ t) = (isAllBlank s && isAllBlank t) := List.all_append

include hstop in
/-- Blanks after a text whose start is trimmed are still there, unless nothing else is. -/
theorem trimStart_append_blank (t : Text) :
    trimStart (t ++ stop) = if trimStart t = [] then [] else trimStart t ++ stop := by
  have hnil : trimStart stop = [] := trimStart_eq_nil_iff.mpr hstop
  rw [trimStart] at hnil
  simp [trimStart, List.dropWhile_append, hnil]

include hstart in
theorem trimStart_blank_append (t : Text) : trimStart (start ++ t) = trimStart t :=
  List.dropWhile_append_of_pos fun _ => isBlank_of_mem_isAllBlank hstart

include hstop in
theorem trimEnd_append_blank (t : Text) : trimEnd (t ++ stop) = trimEnd t := by
  have hreverse : isAllBlank stop.reverse = true := by rwa [isAllBlank, List.all_reverse]
  rw [trimEnd, List.reverse_append, ← trimStart, trimStart_blank_append hreverse, trimStart,
    ← trimEnd]

include hstart hstop in
/-- **Blanks around a text are trimmed away with those at its ends.** -/
theorem trim_between_blanks (t : Text) : trim (start ++ (t ++ stop)) = trim t := by
  rw [trim, trimStart_blank_append hstart, trimStart_append_blank hstop, trim]
  split
  · rename_i hnil
    rw [hnil]
  · rw [trimEnd_append_blank hstop]

include hstart in
theorem trim_blank_append (t : Text) : trim (start ++ t) = trim t := by
  rw [trim, trimStart_blank_append hstart, trim]

end Around

/-! ### Line breaks -/

/-- Line breaks are blank. -/
theorem isAllBlank_lineBreaks (t : Text) : isAllBlank (lineBreaks t) = true := by
  refine List.all_eq_true.mpr fun c hc => ?_
  obtain rfl : c = '\n' := by simpa using (List.mem_filter.mp hc).2
  decide

/-- The line breaks of a text move what follows down as far as the text does. -/
theorem newlines_lineBreaks (t : Text) : newlines (lineBreaks t) = newlines t := by
  rw [newlines, lineBreaks, List.count_filter (by simp), newlines]

/-! ### Trimmed texts -/

/-- Blanks at the end of a text are no other character there. -/
theorem getLast?_append_blank_ne {s stop : Text} {c : Char} (hc : isBlank c = false)
    (hstop : isAllBlank stop = true) (h : s.getLast? ≠ some c) :
    (s ++ stop).getLast? ≠ some c := by
  rw [List.getLast?_append]
  cases hend : stop.getLast? with
  | none => simpa using h
  | some d =>
    intro hlast
    obtain rfl : d = c := Option.some.inj hlast
    exact not_mem_of_isAllBlank hstop hc (List.mem_of_getLast? hend)

theorem trimStart_eq_self_iff {t : Text} :
    trimStart t = t ↔ ∀ c ∈ t.head?, isBlank c = false := by
  cases t with
  | nil => simp
  | cons c t =>
    rw [trimStart, List.dropWhile_eq_self_iff]
    simp

theorem trimEnd_eq_self_iff {t : Text} :
    trimEnd t = t ↔ ∀ c ∈ t.getLast?, isBlank c = false := by
  rw [← List.head?_reverse, ← trimStart_eq_self_iff, trimEnd, trimStart, List.reverse_eq_iff]

/-- Nothing is trimmed away in front of a character that is not blank. -/
theorem trimEnd_append {s : Text} (h : ∀ c ∈ s.getLast?, isBlank c = false) (t : Text) :
    trimEnd (s ++ t) = s ++ trimEnd t := by
  have hreverse : s.reverse.dropWhile isBlank = s.reverse :=
    List.reverse_eq_iff.mp (trimEnd_eq_self_iff.mpr h)
  rw [trimEnd, trimEnd, List.reverse_append, List.dropWhile_append]
  split
  · rename_i hnil
    rw [hreverse, List.isEmpty_iff.mp hnil, List.reverse_reverse, List.reverse_nil, List.append_nil]
  · rw [List.reverse_append, List.reverse_reverse]

/-- **A text is trimmed exactly if neither its first character is blank nor its last one.** -/
theorem trim_eq_self_iff {t : Text} :
    trim t = t ↔
      (∀ c ∈ t.head?, isBlank c = false) ∧ ∀ c ∈ t.getLast?, isBlank c = false := by
  rw [← trimStart_eq_self_iff, ← trimEnd_eq_self_iff]
  refine ⟨fun h => ?_, fun h => by rw [trim, h.1, h.2]⟩
  -- trimming the end makes nothing longer, so nothing was taken away at the start
  have hstart : trimStart t = t := by
    obtain ⟨stop, -, hstop⟩ := exists_eq_trimEnd_append (trimStart t)
    have hlength := congrArg List.length hstop
    rw [← trim, h, List.length_append] at hlength
    have hsuffix : trimStart t <:+ t := List.dropWhile_suffix isBlank
    exact hsuffix.eq_of_length (Nat.le_antisymm hsuffix.length_le (by omega))
  exact ⟨hstart, by rwa [trim, hstart] at h⟩

theorem head?_trimStart (t : Text) : ∀ c ∈ (trimStart t).head?, isBlank c = false := by
  intro c hc
  have hhead := List.head?_dropWhile_not isBlank t
  rw [← trimStart, Option.mem_def.mp hc] at hhead
  simpa using hhead

theorem getLast?_trimEnd (t : Text) : ∀ c ∈ (trimEnd t).getLast?, isBlank c = false := by
  intro c hc
  rw [trimEnd, List.getLast?_reverse] at hc
  exact head?_trimStart t.reverse c hc

/-- Of blanks nothing is left when the end is trimmed. -/
theorem trimEnd_eq_nil_of_isAllBlank {t : Text} (h : isAllBlank (trimEnd t) = true) :
    trimEnd t = [] := by
  rw [← List.getLast?_eq_none_iff]
  cases hlast : (trimEnd t).getLast? with
  | none => rfl
  | some c =>
    have hblank := isBlank_of_mem_isAllBlank h (List.mem_of_getLast? hlast)
    simp [getLast?_trimEnd t c hlast] at hblank

/-- What is left after trimming is trimmed. -/
theorem trim_trim (t : Text) : trim (trim t) = trim t := by
  refine trim_eq_self_iff.mpr ⟨fun c hc => ?_, getLast?_trimEnd (trimStart t)⟩
  obtain ⟨rest, hrest⟩ := List.head?_eq_some_iff.mp hc
  obtain ⟨stop, hstop⟩ := trimEnd_isPrefix (trimStart t)
  refine head?_trimStart t c ?_
  rw [← hstop, ← trim, hrest]
  rfl

end CssResources
