import CssResources.Proofs.Markup.Characters
import CssResources.Proofs.Property.Translation
import CssResources.Proofs.Variable.Absence
import CssResources.ResourceName

/-!
# The characters of items and colors

What is made of a value adds characters of XML only: numbers, hexadecimal digits and the words of
Android are in ASCII, and a capital is a character of XML whenever it is not the character that it
is the capital of (`CssResources.stemsFrom_uppercase`). All else is taken over from the value. So an
item stems from the value of its declaration (`CssResources.stemsFrom_of_mem_translate`), and the
literal of a color from the value that it is read from (`CssResources.stemsFrom_of_colorLiteral?`),
whatever characters these hold.
-/

namespace CssResources

variable {origin value v : Text}

/-! ### Parts of values -/

theorem eraseFrom_sublist (pattern : Text) (skip : Nat) (t : Text) :
    (eraseFrom pattern skip t).Sublist t := by
  fun_induction eraseFrom pattern skip t with
  | case1 => exact List.Sublist.refl []
  | case2 skip c t ih => exact ih.cons c
  | case3 c t h ih => exact ih.cons c
  | case4 c t h ih => exact ih.cons_cons c

theorem stripImportant_sublist (value : Text) : (stripImportant value).Sublist value := by
  have hstripped : (trim (erase (' ' :: importantMarker) value)).Sublist value :=
    (trim_sublist _).trans (eraseFrom_sublist _ 0 value)
  rw [stripImportant]
  split
  · rename_i rest hrest
    refine ((trimEnd_isPrefix rest).sublist.trans ?_).trans hstripped
    rw [beforeEnd?_eq_some_iff.mp hrest]
    exact List.sublist_append_left rest _
  · exact hstripped

theorem sublist_of_mem_tokenParts {depth : Nat} {t token : Text} (h : token ∈ tokenParts depth t) :
    token.Sublist t := by
  induction t generalizing depth token with
  | nil => simp_all
  | cons c t ih =>
    rw [tokenParts] at h
    exact sublist_of_mem_part (fun _ => ih) (fun _ => ih) h

/-- A token is a part of its value. -/
theorem sublist_of_mem_tokens {token : Text} (h : token ∈ tokens value) : token.Sublist value :=
  sublist_of_mem_tokenParts (List.mem_filter.mp h).1

/-! ### Computed values -/

theorem isXmlChar_of_isNumeralChar {c : Char} (h : isNumeralChar c = true) :
    isXmlChar c = true := by
  rw [isNumeralChar, Bool.or_eq_true, Bool.or_eq_true, Bool.or_eq_true, beq_iff_eq, beq_iff_eq,
    beq_iff_eq] at h
  rcases h with ((h | rfl) | rfl) | rfl
  · have hrange := toNat_of_isAlphanum h
    exact isXmlCode_of_ascii (by omega) (by omega)
  all_goals decide

theorem stemsFrom_of_isNumeralChar (h : ∀ c ∈ v, isNumeralChar c = true) : StemsFrom origin v :=
  fun c hc => Or.inl (isXmlChar_of_isNumeralChar (h c hc))

theorem all_isXmlChar_hexByte (b : UInt8) : (hexByte b).all isXmlChar = true := by
  have hdigit : ∀ n < 16, isXmlChar (hexDigit n) = true := by decide
  have hb : b.toNat < 256 := b.toNat_lt
  simp [hexByte, hdigit (b.toNat / 16) (by omega), hdigit (b.toNat % 16) (by omega)]

theorem stemsFrom_of_colorHex? (h : colorHex? value = some v) : StemsFrom origin v := by
  obtain ⟨c, -, rfl⟩ := Option.map_eq_some_iff.mp h
  have hhash : isXmlChar '#' = true := by decide
  refine StemsFrom.of_all ?_
  rw [Color.hex]
  split <;> simp [all_isXmlChar_hexByte, hhash]

/-- **A capital is a character of XML**, unless it is the character itself. -/
theorem isXmlChar_of_mem_upperChar {c d : Char} (h : d ∈ upperChar c) :
    isXmlChar d = true ∨ d = c := by
  have hascii : ∀ n < 0x80, isXmlChar (Char.ofNat n).toUpper = true ∨
      (Char.ofNat n).toUpper = Char.ofNat n := by decide +kernel
  -- a run lies in one of the intervals of XML, as its ends do
  have hruns : ∀ run ∈ Uppercase.runs,
      (0x20 ≤ run.capital ∧ run.capital + (run.last - run.first) ≤ 0xD7FF) ∨
        (0xE000 ≤ run.capital ∧ run.capital + (run.last - run.first) ≤ 0xFFFD) ∨
          (0x10000 ≤ run.capital ∧ run.capital + (run.last - run.first) ≤ 0x10FFFF) := by
    decide +kernel
  have hexpansions : ∀ e ∈ Uppercase.expansions, ∀ n ∈ e.2, isXmlCode n = true := by
    decide +kernel
  rcases mem_upperChar_cases h with
    ⟨hc, rfl⟩ | ⟨run, hrun, hholds, rfl⟩ | ⟨e, he, n, hn, rfl⟩ | ⟨-, rfl⟩
  · exact forall_ascii hc hascii
  · refine Or.inl (isXmlChar_ofNat ?_)
    have hbounds := Uppercase.Run.capitalOf_bounds hholds
    have hrange := hruns run hrun
    rw [isXmlCode_iff]
    omega
  · exact Or.inl (isXmlChar_ofNat (hexpansions e he n hn))
  · exact Or.inr rfl

/-- **A text in capitals stems from the text.** -/
theorem stemsFrom_uppercase (h : StemsFrom origin value) : StemsFrom origin (uppercase value) := by
  intro d hd
  obtain ⟨c, hc, hd⟩ := List.mem_flatMap.mp hd
  rcases isXmlChar_of_mem_upperChar hd with hlegal | rfl
  · exact Or.inl hlegal
  · exact h d hc

theorem stemsFrom_textColor (value : Text) : StemsFrom value (textColor value) := by
  rcases textColor_cases value with h | h
  · rw [h]
    exact stemsFrom_uppercase (StemsFrom.refl value)
  · exact stemsFrom_of_colorHex? h

theorem stemsFrom_of_colorLiteral? (h : colorLiteral? value = some v) : StemsFrom value v := by
  rcases colorLiteral?_cases h with rfl | h
  · exact stemsFrom_uppercase (StemsFrom.of_subset (trim_sublist value).subset)
  · exact stemsFrom_of_colorHex? h

theorem stemsFrom_of_lengthIn? {unit : Text} (hunit : unit.all isXmlChar = true)
    (h : lengthIn? unit value = some v) : StemsFrom origin v := by
  obtain ⟨n, -, rfl⟩ := Option.map_eq_some_iff.mp h
  exact (stemsFrom_of_isNumeralChar fun _ => isNumeralChar_of_mem_intText).append
    (StemsFrom.of_all hunit)

theorem stemsFrom_of_decoration? (h : decoration? value = some v) : StemsFrom origin v := by
  have hwords : ∀ v ∈ ["Underline".toList, "LineThrough".toList], v.all isXmlChar = true := by
    decide
  exact StemsFrom.of_all (hwords v (mem_of_decoration? h))

theorem stemsFrom_of_gravity? (h : gravity? value = some v) : StemsFrom origin v := by
  have hwords : ∀ v ∈ ["start".toList, "center".toList, "end".toList], v.all isXmlChar = true := by
    decide
  exact StemsFrom.of_all (hwords v (mem_of_gravity? h))

theorem stemsFrom_of_opacityText? (h : opacityText? value = some v) : StemsFrom origin v :=
  stemsFrom_of_isNumeralChar (isNumeralChar_of_opacityText? h)

/-- **What is made of a part stems from it.** -/
theorem IsMadeOf.stemsFrom {part : Text} (h : IsMadeOf part v) : StemsFrom part v := by
  cases h with
  | kept => exact StemsFrom.refl _
  | color => exact stemsFrom_textColor part
  | length _ hunit hv =>
    have hunits : ∀ unit ∈ [scaledUnit, plainUnit], unit.all isXmlChar = true := by decide
    exact stemsFrom_of_lengthIn? (hunits _ hunit) hv
  | decoration _ hv => exact stemsFrom_of_decoration? hv
  | gravity _ hv => exact stemsFrom_of_gravity? hv
  | opacity _ hv => exact stemsFrom_of_opacityText? hv
  | zero => exact StemsFrom.of_all (by decide)
  | weight => exact stemsFrom_of_isNumeralChar fun _ => isNumeralChar_of_mem_weightText

/-! ### Items -/

/-- A part of a value has no other characters. -/
theorem Property.sublist_of_mem_parts (p : Property) {part : Text} (h : part ∈ p.parts value) :
    part.Sublist value := by
  rcases p.eq_or_mem_tokens_of_mem_parts h with rfl | h
  · exact List.Sublist.refl part
  · exact sublist_of_mem_tokens h

/-- The name of an item for an attribute has characters of XML only. -/
theorem Property.stemsFrom_itemName (p : Property) {a : Text} (ha : a ∈ p.attributeNames) :
    StemsFrom origin (itemName a) := by
  have hnames : ∀ p ∈ Property.all, ∀ a ∈ p.attributeNames, (itemName a).all isXmlChar = true := by
    decide
  exact StemsFrom.of_all (hnames p p.mem_all a ha)

/-- **The items of a property stem from its value.** -/
theorem Property.stemsFrom_of_mem_translate (p : Property) {i : Item}
    (hi : i ∈ (p.translate value).items) : i.StemsFrom value := by
  obtain ⟨part, hpart, hmade, -⟩ :=
    exists_of_mem_forall₂ (p.forall₂_isMadeOf (List.ne_nil_of_mem hi)) hi
  obtain ⟨a, ha, hname⟩ := p.exists_name_of_mem_translate hi
  exact ⟨hname ▸ p.stemsFrom_itemName ha,
    hmade.stemsFrom.trans (StemsFrom.of_subset (p.sublist_of_mem_parts hpart).subset)⟩

theorem Item.StemsFrom.markUnresolved {i : Item} (h : i.StemsFrom origin) :
    (markUnresolved i).StemsFrom origin := by
  rw [CssResources.markUnresolved]
  split
  · exact ⟨h.name, h.value.mono (eraseFrom_sublist _ 0 i.value).subset⟩
  · exact h

/-- **The items of a declaration stem from its value.** -/
theorem stemsFrom_of_mem_translate {name : Text} {i : Item}
    (hi : i ∈ (translate name value).items) : i.StemsFrom value := by
  have hvalue : StemsFrom value (stripImportant value) :=
    StemsFrom.of_subset (stripImportant_sublist value).subset
  rw [translate] at hi
  split at hi
  · rename_i p _
    rw [Translation.items_map] at hi
    obtain ⟨j, hj, rfl⟩ := List.mem_map.mp hi
    exact ((p.stemsFrom_of_mem_translate hj).trans hvalue).markUnresolved
  · exact absurd hi List.not_mem_nil

/-! ### Names -/

/-- A resource name has characters of XML only. -/
theorem stemsFrom_resourceName (name : Text) : StemsFrom origin (resourceName name) := by
  intro c hc
  have hchar := isResourceChar_of_mem_resourceName hc
  rw [isResourceChar, Bool.or_eq_true, Bool.or_eq_true, beq_iff_eq, beq_iff_eq] at hchar
  refine Or.inl ?_
  rcases hchar with (hchar | rfl) | rfl
  · have hrange := toNat_of_isAlphanum hchar
    exact isXmlCode_of_ascii (by omega) (by omega)
  all_goals decide

/-- A name with its first character in capitals stems from where the name stems from. -/
theorem stemsFrom_capitalizeFirst {name : Text} (h : StemsFrom origin name) :
    StemsFrom origin (capitalizeFirst name) := by
  cases name with
  | nil => exact h
  | cons c name =>
    have hcapital : capitalizeFirst (c :: name) = uppercase [c] ++ name := by
      simp [capitalizeFirst]
    rw [hcapital]
    exact (stemsFrom_uppercase (h.mono (by simp))).append (h.mono (by simp))

end CssResources
