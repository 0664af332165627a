import CssResources.Proofs.Property.Marking
import CssResources.Proofs.Value.Markers

/-!
# Values that come to nothing

A value may be nothing but a marker, or a reference to a property that is given without a value.
What is left of it without markers is the **empty** text
(`CssResources.stripImportant_eq_nil_of_isAllBlank`). This file says what becomes of it.

| what is made of a value | of one with a character | of the empty one |
|---|---|---|
| what is computed | not blank | nothing |
| a text color | not blank | empty |
| a text that is taken over | the same | empty |

So of a value with a character no property makes a blank item
(`CssResources.IsMadeOf.isAllBlank_eq_false`), and of the empty value most properties make none at
all. The exceptions are those that **take every text** (`CssResources.Property.takesEveryText`):
they make an item without a value (`CssResources.Property.items_translate_nil`). A color resource
is never blank (`CssResources.colorLiteral?_eq_none_of_stripImportant`).
-/

namespace CssResources

variable {value part v : Text}

/-! ### Capitals -/

/-- A capital of a character that is not blank is not blank. -/
theorem isBlank_of_mem_upperChar {c d : Char} (hc : isBlank c = false) (h : d ∈ upperChar c) :
    isBlank d = false := by
  have hascii : ∀ n < 128, isBlank (Char.ofNat n) = false →
      isBlank (Char.ofNat n).toUpper = false := by decide +kernel
  -- the capitals of a run lie on one side of each place with blanks, as the ends do
  have hruns : ∀ run ∈ Uppercase.runs,
      0x20 < run.capital ∧
        (∀ n ∈ [0x85, 0xA0, 0x1680, 0x3000],
          run.capital + (run.last - run.first) < n ∨ n < run.capital) ∧
        (run.capital + (run.last - run.first) < 0x2000 ∨ 0x205F < run.capital) := by
    decide +kernel
  have hexpansions : ∀ e ∈ Uppercase.expansions, ∀ n ∈ e.2, isBlank (Char.ofNat n) = false := by
    decide +kernel
  rcases mem_upperChar_cases h with
    ⟨hsmall, rfl⟩ | ⟨run, hrun, hholds, rfl⟩ | ⟨e, he, n, hn, rfl⟩ | ⟨-, rfl⟩
  · have hupper : isBlank c = false → isBlank c.toUpper = false := forall_ascii hsmall hascii
    exact hupper hc
  · refine Bool.eq_false_iff.mpr fun hblank => ?_
    have hcapital : run.capitalOf c.toNat = (Char.ofNat (run.capitalOf c.toNat)).toNat := by
      refine eq_toNat_of_ofNat_eq (fun hzero => ?_) rfl
      rw [hzero] at hblank
      exact absurd hblank (by decide)
    obtain ⟨hlow, hplaces, hblock⟩ := hruns run hrun
    have hbounds := Uppercase.Run.capitalOf_bounds hholds
    have hcases := toNat_cases_of_isBlank hblank
    rw [← hcapital] at hcases
    rcases hcases with hcode | hcode | hcode
    · omega
    · have hplace := hplaces _ hcode
      omega
    · omega
  · exact hexpansions e he n hn
  · exact hc

/-- A character has a capital, if only itself. -/
theorem upperChar_ne_nil (c : Char) : upperChar c ≠ [] := by
  have hexpansions : ∀ e ∈ Uppercase.expansions, e.2 ≠ [] := by decide +kernel
  rw [upperChar]
  split
  · exact List.cons_ne_nil _ _
  · split
    · exact List.cons_ne_nil _ _
    · split
      · rename_i capitals hcapitals
        obtain ⟨before, after, hsplit, -⟩ := List.lookup_eq_some_iff.mp hcapitals
        have hmem : (c.toNat, capitals) ∈ Uppercase.expansions := by simp [hsplit]
        simpa using hexpansions _ hmem
      · exact List.cons_ne_nil _ _

/-- **A text that is not blank is not blank in capitals.** -/
theorem isAllBlank_uppercase (h : isAllBlank value = false) :
    isAllBlank (uppercase value) = false := by
  obtain ⟨c, hmem, hc⟩ := List.all_eq_false.mp h
  obtain ⟨d, capitals, hd⟩ := List.exists_cons_of_ne_nil (upperChar_ne_nil c)
  have hcapital : d ∈ upperChar c := by simp [hd]
  exact isAllBlank_eq_false_of_mem (isBlank_of_mem_upperChar (Bool.eq_false_iff.mpr hc) hcapital)
    (List.mem_flatMap.mpr ⟨c, hmem, hcapital⟩)

/-! ### Numbers -/

theorem isBlank_of_isNumeralChar {c : Char} (h : isNumeralChar c = true) : isBlank c = false := by
  rw [isNumeralChar, Bool.or_eq_true, Bool.or_eq_true, Bool.or_eq_true, beq_iff_eq, beq_iff_eq,
    beq_iff_eq] at h
  rcases h with ((h | rfl) | rfl) | rfl
  · exact isBlank_of_isAlphanum h
  all_goals decide

/-- A text that may be a number is not blank, if it is not empty. -/
theorem isAllBlank_of_isNumeralChar (hne : v ≠ []) (h : ∀ c ∈ v, isNumeralChar c = true) :
    isAllBlank v = false := by
  obtain ⟨c, rest, rfl⟩ := List.exists_cons_of_ne_nil hne
  exact isAllBlank_eq_false_of_mem (isBlank_of_isNumeralChar (h c (List.mem_cons_self ..)))
    (List.mem_cons_self ..)

theorem positional_ne_nil (n places : Nat) : positional n places ≠ [] := by
  rw [positional]
  split
  · exact Nat.toDigits_ne_nil
  · simp

theorem writtenWith_ne_nil (decimals : Nat → Nat × Nat) (x : Binary64) :
    x.writtenWith decimals ≠ [] := by
  cases x with
  | nan =>
    have hword : "NaN".toList ≠ [] := by decide
    exact hword
  | infinite negative =>
    have hword : (if negative then "-inf".toList else "inf".toList) ≠ [] := by
      cases negative <;> decide
    exact hword
  | finite negative units =>
    rw [Binary64.writtenWith]
    dsimp only
    split
    · exact List.cons_ne_nil _ _
    · exact positional_ne_nil _ _

/-- **Something is written for every number.** -/
theorem toText_ne_nil (x : Binary64) : x.toText ≠ [] := by
  rw [toText_eq_writtenWith]
  exact writtenWith_ne_nil _ x

theorem opacityText?_ne_nil (h : opacityText? value = some v) : v ≠ [] := by
  have hnone : Binary64.ofText? [] = none := by decide
  rw [opacityText?] at h
  split at h
  · obtain ⟨x, -, rfl⟩ := Option.map_eq_some_iff.mp h
    exact toText_ne_nil _
  · obtain ⟨x, hx, h⟩ := Option.bind_eq_some_iff.mp h
    split at h
    · obtain rfl := Option.some.inj h
      intro hnil
      rw [hnil, hnone] at hx
      cases hx
    · simp at h

/-! ### What is made of a value -/

theorem isAllBlank_of_colorHex? (h : colorHex? value = some v) : isAllBlank v = false := by
  obtain ⟨c, -, rfl⟩ := Option.map_eq_some_iff.mp h
  exact isAllBlank_eq_false_of_mem (c := '#') (by decide) (List.mem_cons_self ..)

theorem isAllBlank_of_lengthIn? {unit : Text} (hunit : unit ∈ [scaledUnit, plainUnit])
    (h : lengthIn? unit value = some v) : isAllBlank v = false := by
  have hunits : ∀ unit ∈ [scaledUnit, plainUnit], isAllBlank unit = false := by decide
  obtain ⟨n, -, rfl⟩ := Option.map_eq_some_iff.mp h
  rw [isAllBlank_append, hunits unit hunit, Bool.and_false]

/-- **What is made of a part that is not blank is not blank.** -/
theorem IsMadeOf.isAllBlank_eq_false (h : IsMadeOf part v) (hpart : isAllBlank part = false) :
    isAllBlank v = false := by
  cases h with
  | kept => exact hpart
  | color =>
    rcases textColor_cases part with h | h
    · rw [h]
      exact isAllBlank_uppercase hpart
    · exact isAllBlank_of_colorHex? h
  | length _ hunit hv => exact isAllBlank_of_lengthIn? hunit hv
  | decoration _ hv =>
    have hwords : ∀ v ∈ ["Underline".toList, "LineThrough".toList], isAllBlank v = false := by
      decide
    exact hwords v (mem_of_decoration? hv)
  | gravity _ hv =>
    have hwords : ∀ v ∈ ["start".toList, "center".toList, "end".toList], isAllBlank v = false := by
      decide
    exact hwords v (mem_of_gravity? hv)
  | opacity _ hv =>
    exact isAllBlank_of_isNumeralChar (opacityText?_ne_nil hv) (isNumeralChar_of_opacityText? hv)
  | zero => decide
  | weight =>
    exact isAllBlank_eq_false_of_mem (c := '.') (by decide)
      (List.mem_append_right _ (List.mem_cons_self ..))

/-! ### Parts -/

/-- The parts between the blanks outside parentheses begin with no blank, the first one apart if a
parenthesis is open there. -/
theorem head?_of_mem_tokenParts (depth : Nat) (t : Text) :
    (depth = 0 → ∀ w ∈ (tokenParts depth t).head?, ∀ c ∈ w.head?, isBlank c = false) ∧
      ∀ w ∈ (tokenParts depth t).tail, ∀ c ∈ w.head?, isBlank c = false := by
  induction t generalizing depth with
  | nil => simp
  | cons c t ih =>
    rw [tokenParts]
    split
    · refine ⟨by simp, fun w hw => ?_⟩
      obtain ⟨hhead, htail⟩ := ih 0
      cases hparts : tokenParts 0 t with
      | nil => simp [hparts] at hw
      | cons u ws =>
        rw [hparts] at hw hhead htail
        rcases List.mem_cons.mp hw with rfl | hw
        · exact hhead rfl _ rfl
        · exact htail w hw
    · rename_i hc
      have htail := (ih (depthAfter depth c)).2
      have hblank : depth = 0 → isBlank c = false := fun hdepth => by simpa [hdepth] using hc
      cases hparts : tokenParts (depthAfter depth c) t with
      | nil => simpa using hblank
      | cons u ws =>
        rw [hparts] at htail
        exact ⟨fun hdepth => by simpa using hblank hdepth, htail⟩

/-- **No token is blank.** -/
theorem isAllBlank_of_mem_tokens (h : part ∈ tokens value) : isAllBlank part = false := by
  obtain ⟨hmem, hne⟩ := List.mem_filter.mp h
  cases part with
  | nil => simp at hne
  | cons c rest =>
    obtain ⟨hhead, htail⟩ := head?_of_mem_tokenParts 0 value
    have hblank : isBlank c = false := by
      cases hparts : tokenParts 0 value with
      | nil => simp [hparts] at hmem
      | cons u ws =>
        rw [hparts] at hmem hhead htail
        rcases List.mem_cons.mp hmem with rfl | hmem
        · exact hhead rfl _ rfl c rfl
        · exact htail _ hmem c rfl
    exact isAllBlank_eq_false_of_mem hblank (List.mem_cons_self ..)

/-- The parts of a value that is not blank are not blank. -/
theorem Property.isAllBlank_of_mem_parts (p : Property) (h : isAllBlank value = false)
    (hpart : part ∈ p.parts value) : isAllBlank part = false := by
  rcases p.eq_or_mem_tokens_of_mem_parts hpart with rfl | hpart
  · exact h
  · exact isAllBlank_of_mem_tokens hpart

/-! ### The empty value -/

namespace Property

/-- **The property takes every text over**, be it empty. -/
def takesEveryText : Property → Bool
  | color | fontWeight | fontFamily | backgroundColor => true
  | _ => false

/-- **Of the empty value an item is made only by the properties that take every text.** -/
theorem items_translate_nil {p : Property} (h : p.takesEveryText = false) :
    (p.translate []).items = [] := by
  cases p with
  | shorthand spacing => cases spacing <;> decide
  | edge spacing side => cases spacing <;> cases side <;> decide
  | extent e => cases e <;> decide
  | color | fontWeight | fontFamily | backgroundColor => cases h
  | _ => decide

/-- The item of the empty value is empty too. -/
theorem value_of_mem_translate_nil {p : Property} {i : Item} (h : i ∈ (p.translate []).items) :
    i.value = [] := by
  cases p with
  | color | fontWeight | fontFamily | backgroundColor =>
    obtain rfl := List.mem_singleton.mp h
    rfl
  | _ =>
    rw [items_translate_nil rfl] at h
    exact absurd h List.not_mem_nil

end Property

/-! ### Items -/

theorem paren_mem_of_hasReference {t : Text} (h : hasReference t = true) : '(' ∈ t :=
  (isInfix_of_hasReference h).subset (by decide)

/-- What keeps a reference is not blank, also without its pairs of dashes. -/
theorem isAllBlank_eraseDashes {t : Text} (h : hasReference t = true) :
    isAllBlank (eraseDashes t) = false :=
  isAllBlank_eq_false_of_mem (c := '(') (by decide)
    (mem_erase_of_mem (by decide) (by decide) (paren_mem_of_hasReference h))

theorem isAllBlank_markUnresolved (i : Item) :
    isAllBlank (markUnresolved i).value = isAllBlank i.value := by
  rw [markUnresolved]
  split
  · rename_i h
    exact (isAllBlank_eraseDashes h).trans
      (isAllBlank_eq_false_of_mem (by decide) (paren_mem_of_hasReference h)).symm
  · rfl

/-- **An item is blank exactly if nothing is left of its value without markers.** -/
theorem isAllBlank_iff_of_mem_translate {name : Text} {i : Item}
    (hi : i ∈ (translate name value).items) :
    isAllBlank i.value = true ↔ stripImportant value = [] := by
  rw [translate] at hi
  split at hi
  · rename_i p _
    rw [Translation.items_map] at hi
    obtain ⟨j, hj, rfl⟩ := List.mem_map.mp hi
    rw [isAllBlank_markUnresolved]
    constructor
    · intro hblank
      by_contra hne
      have hvalue : isAllBlank (stripImportant value) = false :=
        Bool.eq_false_iff.mpr fun h => hne (stripImportant_eq_nil_of_isAllBlank h)
      obtain ⟨part, hpart, hmade⟩ :=
        exists_of_mem_forall₂ (p.forall₂_isMadeOf (List.ne_nil_of_mem hj)) hj
      rw [hmade.1.isAllBlank_eq_false (p.isAllBlank_of_mem_parts hvalue hpart)] at hblank
      exact absurd hblank (by simp)
    · intro hnil
      rw [hnil] at hj
      rw [p.value_of_mem_translate_nil hj]
      rfl
  · exact absurd hi List.not_mem_nil

/-- **Of a value of which nothing is left, an item is made only by the properties that take every
text.** -/
theorem items_translate_of_stripImportant {name : Text} {p : Property}
    (hp : Property.ofName? name = some p) (htakes : p.takesEveryText = false)
    (h : stripImportant value = []) : (translate name value).items = [] := by
  rw [translate, hp, h]
  dsimp only
  rw [Translation.items_map, Property.items_translate_nil htakes, List.map_nil]

/-! ### Colors -/

/-- **The literal of a color is not blank.** -/
theorem isAllBlank_of_colorLiteral? (h : colorLiteral? value = some v) : isAllBlank v = false := by
  rcases colorLiteral?_cases h with rfl | hhex
  · refine isAllBlank_uppercase (Bool.eq_false_iff.mpr fun hblank => ?_)
    have hnil : trim value = [] := trimEnd_eq_nil_of_isAllBlank hblank
    have hnone : colorLiteral? value = none := by
      rw [colorLiteral?, hnil]
      decide
    rw [hnone] at h
    cases h
  · exact isAllBlank_of_colorHex? hhex

/-- A call of a function of colors has a letter that the marker does not have. -/
theorem exists_mem_of_isColorFunction (h : isColorFunction value = true) :
    ∃ c ∈ trim value, isBlank c = false ∧ c ∉ importantMarker := by
  have hmarker : importantMarker.all (·.toLower != 'g') = true := by decide
  have hletter : 'g' ∈ lowerAscii (trim value) := by
    rw [isColorFunction, Color.afterFunctionName?, Option.isSome_or, Bool.or_eq_true] at h
    rcases h with h | h
    all_goals
      obtain ⟨rest, hrest⟩ := Option.isSome_iff_exists.mp h
      rw [afterStart?_eq_some_iff.mp hrest]
      exact List.mem_append_left rest (by decide)
  obtain ⟨c, hc, hlower⟩ := List.mem_map.mp hletter
  refine ⟨c, hc, isBlank_of_isAlphanum (isAlphanum_of_toLower ?_), fun hmem => ?_⟩
  · rw [hlower]
    decide
  · simpa [hlower] using List.all_eq_true.mp hmarker c hmem

/-- A word has no marker in it. -/
theorem not_isInfix_of_isColorWord (h : isColorWord (trim value) = true) :
    ¬importantMarker <:+: value := by
  intro hfound
  have hmem : '!' ∈ trim value := by
    by_contra hnot
    exact not_mem_of_not_mem_trim (by decide) hnot (hfound.subset (by decide))
  rw [isColorWord, Bool.and_eq_true] at h
  exact absurd (List.all_eq_true.mp h.2 '!' hmem) (by decide)

/-- **A value of which nothing is left is no color.** -/
theorem colorLiteral?_eq_none_of_stripImportant (h : stripImportant value = []) :
    colorLiteral? value = none := by
  have hchars {c : Char} (hblank : isBlank c = false) (hc : c ∉ importantMarker) :
      c ∉ trim value := fun hmem => by
    have hleft := mem_stripImportant_of_mem hblank hc ((trim_sublist value).subset hmem)
    rw [h] at hleft
    exact absurd hleft List.not_mem_nil
  rw [colorLiteral?]
  split
  · rename_i digits hdigits
    have hhash : '#' ∈ trim value := by simp [hdigits]
    exact absurd hhash (hchars (by decide) (by decide))
  · split
    · rename_i hfunction
      obtain ⟨c, hmem, hblank, hc⟩ := exists_mem_of_isColorFunction hfunction
      rw [trim_trim] at hmem
      exact absurd hmem (hchars hblank hc)
    · refine if_neg fun hword => ?_
      rw [stripImportant_of_not_isInfix (not_isInfix_of_isColorWord hword)] at h
      rw [h] at hword
      exact absurd hword (by decide)

end CssResources
