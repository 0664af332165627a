import CssResources.Proofs.Selector

/-!
# The grammar of selectors

A selector is read by a row of tests: for the root, for the characters of features without a
counterpart, for a second dot, for an identifier. This file says what the row comes to. **The texts
that are not rejected are those of a small grammar** (`CssResources.Selector.Grammar`,
`CssResources.Selector.ofText_iff_grammar`).

| the text, without blanks at its ends | is read as |
|---|---|
| `:root` | the root |
| `.` and the name of a class | this class |
| the name of an element | this element |
| anything else | rejected |

The name of a class begins with a letter, an underscore or a dash
(`CssResources.Selector.IsClassName`), that of an element with a letter
(`CssResources.Selector.IsElementName`); letters, digits, dashes and underscores may follow. So no
part of a selector that the grammar lacks ever comes into a style, and the name of a style is made
of the letters, digits and underscores that resources are named with
(`CssResources.Selector.IsStyleName`).
-/

namespace CssResources

namespace Selector

/-! ### The grammar -/

/-- A character that a name may go on with. -/
def IsNameChar (c : Char) : Prop := c.isAlphanum = true ∨ c = '-' ∨ c = '_'

instance : DecidablePred IsNameChar := fun _ => inferInstanceAs (Decidable (_ ∨ _))

/-- **The name of a class.** -/
def IsClassName (name : Text) : Prop :=
  ∃ c rest, name = c :: rest ∧ (c.isAlpha = true ∨ c = '_' ∨ c = '-') ∧ ∀ d ∈ rest, IsNameChar d

/-- **The name of an element.** -/
def IsElementName (name : Text) : Prop :=
  ∃ c rest, name = c :: rest ∧ c.isAlpha = true ∧ ∀ d ∈ rest, IsNameChar d

/-- **The grammar of selectors**: the texts without blanks at their ends that are not rejected, and
what they are read as. -/
inductive Grammar : Text → Selector → Prop where
  /-- The root. -/
  | root : Grammar ":root".toList root
  /-- A class, behind a dot. -/
  | className {name : Text} (h : IsClassName name) : Grammar ('.' :: name) (className name)
  /-- An element. -/
  | element {name : Text} (h : IsElementName name) : Grammar name (element name)

/-- **The name of a style**, without what every name begins with. -/
def IsStyleName (name : Text) : Prop :=
  ∃ c rest, name = c :: rest ∧ (c.isAlpha = true ∨ c = '_') ∧
    ∀ d ∈ rest, d.isAlphanum = true ∨ d = '_'

/-- The characters of combinators, brackets, pseudo-classes, identities and the universal
selector. -/
def featureChars : Text := ">+~[]():#*".toList

/-- **The text has a part that styles have no counterpart for**: it holds one of these characters
or a blank, or a dot somewhere behind its first character. -/
def HasForeignPart (t : Text) : Prop :=
  (∃ c ∈ t, isBlank c = true ∨ c ∈ featureChars) ∨ '.' ∈ t.tail

/-! ### Names and identifiers -/

section Names

variable {name : Text} {c : Char}

theorem isIdentifierChar_iff : isIdentifierChar c = true ↔ IsNameChar c := by
  simp [isIdentifierChar, IsNameChar, or_assoc]

/-- **The names of classes are the identifiers.** -/
theorem isIdentifier_iff : isIdentifier name = true ↔ IsClassName name := by
  cases name with
  | nil => simp [isIdentifier, IsClassName]
  | cons c rest =>
    rw [isIdentifier, Bool.and_eq_true, List.all_eq_true, isIdentifierStart]
    simp only [isIdentifierChar_iff, Bool.or_eq_true, beq_iff_eq, or_assoc]
    constructor
    · rintro ⟨hc, hrest⟩
      exact ⟨c, rest, rfl, hc, hrest⟩
    · rintro ⟨d, rest', h, hc, hrest⟩
      obtain ⟨rfl, rfl⟩ := List.cons.inj h
      exact ⟨hc, hrest⟩

/-- The name of an element is the name of a class too. -/
theorem IsElementName.isClassName (h : IsElementName name) : IsClassName name := by
  obtain ⟨c, rest, rfl, hc, hrest⟩ := h
  exact ⟨c, rest, rfl, .inl hc, hrest⟩

theorem isElementName_iff :
    (name.head?.any Char.isAlpha && isIdentifier name) = true ↔ IsElementName name := by
  rw [Bool.and_eq_true, isIdentifier_iff]
  constructor
  · rintro ⟨hhead, c, rest, rfl, -, hrest⟩
    exact ⟨c, rest, rfl, hhead, hrest⟩
  · intro h
    obtain ⟨c, rest, rfl, hc, -⟩ := id h
    exact ⟨hc, h.isClassName⟩

/-- All characters of a name may stand in a name. -/
theorem IsClassName.isNameChar (h : IsClassName name) (hc : c ∈ name) : IsNameChar c :=
  isIdentifierChar_iff.mp (isIdentifierChar_of_mem (isIdentifier_iff.mpr h) hc)

/-! ### Characters with a meaning of their own -/

theorem IsNameChar.toNat_lt (h : IsNameChar c) : c.toNat < 128 := by
  rcases h with h | rfl | rfl
  · have hrange := toNat_of_isAlphanum h
    omega
  · decide
  · decide

/-- **A character of a name has no meaning of its own** in a selector. -/
theorem IsNameChar.plain (h : IsNameChar c) :
    isBlank c = false ∧ c ∉ featureChars ∧ c ≠ '.' ∧ rejectionOf c = none := by
  have hascii : ∀ n < 128, IsNameChar (Char.ofNat n) →
      isBlank (Char.ofNat n) = false ∧ Char.ofNat n ∉ featureChars ∧ Char.ofNat n ≠ '.' ∧
        rejectionOf (Char.ofNat n) = none := by decide +kernel
  have hplain : IsNameChar c →
      isBlank c = false ∧ c ∉ featureChars ∧ c ≠ '.' ∧ rejectionOf c = none :=
    forall_ascii h.toNat_lt hascii
  exact hplain h

theorem IsNameChar.not_foreign (h : IsNameChar c) : ¬(isBlank c = true ∨ c ∈ featureChars) := by
  rintro (hblank | hfeature)
  · simp [h.plain.1] at hblank
  · exact h.plain.2.1 hfeature

theorem IsClassName.findSome?_rejectionOf (h : IsClassName name) :
    name.findSome? rejectionOf = none :=
  List.findSome?_eq_none_iff.mpr fun _ hc => (h.isNameChar hc).plain.2.2.2

theorem IsClassName.contains_dot (h : IsClassName name) : name.contains '.' = false := by
  simp only [List.contains_eq_mem, decide_eq_false_iff_not]
  exact fun hdot => (h.isNameChar hdot).plain.2.2.1 rfl

end Names

/-! ### Reading -/

section Reading

variable {t name : Text}

/-- A class is read from its name behind a dot. -/
theorem ofTrimmed_class (h : IsClassName name) : ofTrimmed ('.' :: name) = className name := by
  have hroot : '.' :: name ≠ ":root".toList := by simp
  have hnone : ('.' :: name).findSome? rejectionOf = none := by
    rw [List.findSome?_cons, h.findSome?_rejectionOf]
    rfl
  rw [ofTrimmed, if_neg hroot, hnone]
  dsimp only
  rw [h.contains_dot, isIdentifier_iff.mpr h]
  rfl

/-- An element is read from its name. -/
theorem ofTrimmed_element (h : IsElementName name) : ofTrimmed name = element name := by
  have hnone := h.isClassName.findSome?_rejectionOf
  have hdot := h.isClassName.contains_dot
  have hidentifier := isElementName_iff.mpr h
  have hroot : name ≠ ":root".toList := by
    rintro rfl
    exact absurd hnone (by decide)
  unfold ofTrimmed
  rw [if_neg hroot, hnone]
  dsimp only
  split
  · simp at hdot
  · rw [hdot, hidentifier]
    rfl

/-- **Texts of the grammar are read by it.** -/
theorem Grammar.ofTrimmed_eq {s : Selector} (h : Grammar t s) : ofTrimmed t = s := by
  cases h with
  | root => rfl
  | className h => exact ofTrimmed_class h
  | element h => exact ofTrimmed_element h

/-- **All other texts are rejected.** -/
theorem grammar_or_rejected (t : Text) :
    Grammar t (ofTrimmed t) ∨ ∃ cause, ofTrimmed t = rejected cause := by
  unfold ofTrimmed
  split
  · rename_i hroot
    rw [hroot]
    exact .inl .root
  split
  · exact .inr ⟨_, rfl⟩
  split
  · split
    · exact .inr ⟨_, rfl⟩
    split
    · rename_i hname
      exact .inl (.className (isIdentifier_iff.mp hname))
    · exact .inr ⟨_, rfl⟩
  · split
    · exact .inr ⟨_, rfl⟩
    split
    · rename_i hname
      exact .inl (.element (isElementName_iff.mp hname))
    · exact .inr ⟨_, rfl⟩

theorem ofTrimmed_eq_iff {s : Selector} (hs : ∀ cause, s ≠ rejected cause) :
    ofTrimmed t = s ↔ Grammar t s := by
  refine ⟨fun h => ?_, Grammar.ofTrimmed_eq⟩
  subst h
  exact (grammar_or_rejected t).resolve_right fun ⟨cause, h⟩ => hs cause h

end Reading

/-! ### Styles -/

section Styles

variable {name : Text} {c : Char}

/-- With an underscore for a dash, a character of a name may stand in the name of a style. -/
theorem IsNameChar.dashless (h : IsNameChar c) :
    (if c = '-' then '_' else c).isAlphanum = true ∨ (if c = '-' then '_' else c) = '_' := by
  rcases h with h | rfl | rfl
  · split
    · exact .inr rfl
    · exact .inl h
  · exact .inr rfl
  · exact .inr rfl

theorem IsNameChar.of_mem_dashless (h : ∀ d ∈ name, IsNameChar d) :
    ∀ d ∈ CssResources.dashless name, d.isAlphanum = true ∨ d = '_' := by
  intro d hd
  obtain ⟨e, he, rfl⟩ := List.mem_map.mp hd
  exact (h e he).dashless

/-- The name of a class gives the name of a style. -/
theorem IsClassName.isStyleName (h : IsClassName name) : IsStyleName (dashless name) := by
  obtain ⟨c, rest, rfl, hc, hrest⟩ := h
  refine ⟨_, _, rfl, ?_, IsNameChar.of_mem_dashless hrest⟩
  rcases hc with hc | rfl | rfl
  · dsimp only
    split
    · exact .inr rfl
    · exact .inl hc
  · exact .inr rfl
  · exact .inr rfl

/-- **The styles of selectors have names of styles**, whatever texts the selectors are read from. -/
theorem IsNamed.isStyleName {s : Selector} (h : s.IsNamed) (hname : s.styleName? = some name) :
    IsStyleName name := by
  cases s with
  | className n =>
    rw [styleName?_className h] at hname
    obtain rfl := Option.some.inj hname
    exact (isIdentifier_iff.mp h).isStyleName
  | element n =>
    have hn : IsClassName n := isIdentifier_iff.mp h.2
    obtain ⟨c, rest, rfl, hc, hstyle⟩ := h.exists_styleName?_element
    rw [hstyle] at hname
    obtain rfl := Option.some.inj hname
    exact ⟨_, _, rfl, .inl (isAlpha_toUpper hc),
      IsNameChar.of_mem_dashless fun d hd => hn.isNameChar (List.mem_cons_of_mem _ hd)⟩
  | root => cases hname
  | rejected cause => cases hname

/-- **No text of the grammar has a part without a counterpart**, the root apart. -/
theorem Grammar.not_hasForeignPart {t : Text} {s : Selector} (h : Grammar t s) (hs : s ≠ .root) :
    ¬HasForeignPart t := by
  have hdot : isBlank '.' = false ∧ '.' ∉ featureChars := by decide
  cases h with
  | root => exact absurd rfl hs
  | className h =>
    rintro (⟨c, hc, hforeign⟩ | htail)
    · rcases List.mem_cons.mp hc with rfl | hc
      · simp [hdot] at hforeign
      · exact (h.isNameChar hc).not_foreign hforeign
    · exact (h.isNameChar htail).plain.2.2.1 rfl
  | element h =>
    rintro (⟨c, hc, hforeign⟩ | htail)
    · exact (h.isClassName.isNameChar hc).not_foreign hforeign
    · exact (h.isClassName.isNameChar (List.mem_of_mem_tail htail)).plain.2.2.1 rfl

end Styles

/-! ### The theorem -/

/-- **A selector is accepted exactly if it is of the grammar.** Of its text without the blanks at
its ends, it is the root if that is `:root`, a class if that is a dot and the name of the class, an
element if that is the name of the element, and rejected if it is none of these. So no text with a
part that styles have no counterpart for has a style, and the name of every style is a letter or
underscore followed by letters, digits and underscores. -/
theorem ofText_iff_grammar (s : Text) :
    (ofText s = root ↔ trim s = ":root".toList) ∧
      (∀ name, ofText s = className name ↔ trim s = '.' :: name ∧ IsClassName name) ∧
      (∀ name, ofText s = element name ↔ trim s = name ∧ IsElementName name) ∧
      ((∃ cause, ofText s = rejected cause) ↔
        trim s ≠ ":root".toList ∧ (∀ name, IsClassName name → trim s ≠ '.' :: name) ∧
          ¬IsElementName (trim s)) ∧
      (HasForeignPart (trim s) → (ofText s).styleName? = none) ∧
      ∀ name, (ofText s).styleName? = some name → IsStyleName name := by
  have hnamed := isNamed_ofText s
  rw [ofText] at hnamed ⊢
  generalize trim s = t at hnamed ⊢
  refine ⟨?_, fun name => ?_, fun name => ?_, ⟨?_, ?_⟩, fun hforeign => ?_,
    fun name => hnamed.isStyleName⟩
  · rw [ofTrimmed_eq_iff (by simp)]
    constructor
    · rintro ⟨⟩
      rfl
    · rintro rfl
      exact .root
  · rw [ofTrimmed_eq_iff (by simp)]
    constructor
    · rintro ⟨⟩
      exact ⟨rfl, ‹_›⟩
    · rintro ⟨rfl, hname⟩
      exact .className hname
  · rw [ofTrimmed_eq_iff (by simp)]
    constructor
    · rintro ⟨⟩
      exact ⟨rfl, ‹_›⟩
    · rintro ⟨rfl, hname⟩
      exact .element hname
  · rintro ⟨cause, hcause⟩
    have hnone : ∀ s, Grammar t s → s = rejected cause := fun s h =>
      h.ofTrimmed_eq.symm.trans hcause
    refine ⟨?_, ?_, fun hname => ?_⟩
    · rintro rfl
      cases hnone _ .root
    · rintro name hname rfl
      cases hnone _ (.className hname)
    · cases hnone _ (.element hname)
  · rintro ⟨hroot, hclass, helement⟩
    refine (grammar_or_rejected t).resolve_left fun h => ?_
    generalize ofTrimmed t = s at h
    cases h with
    | root => exact hroot rfl
    | className h => exact hclass _ h rfl
    | element h => exact helement h
  · rcases grammar_or_rejected t with h | ⟨cause, h⟩
    · by_cases hroot : ofTrimmed t = root
      · rw [hroot]
        rfl
      · exact absurd hforeign (h.not_hasForeignPart hroot)
    · rw [h]
      rfl

theorem ofText_iff_grammar_nav :
    (HasForeignPart (trim " .nav > a\n".toList) ∧
        (ofText " .nav > a\n".toList).styleName? = none) ∧
      ofText "\t.-nav-2 ".toList = className "-nav-2".toList ∧
      (ofText "\t.-nav-2 ".toList).styleName? = some "_nav_2".toList ∧
      IsStyleName "_nav_2".toList := by
  have hforeign : HasForeignPart (trim " .nav > a\n".toList) :=
    .inl ⟨'>', by decide, .inr (by decide)⟩
  have hname : IsClassName "-nav-2".toList := isIdentifier_iff.mp (by decide)
  have hclass : ofText "\t.-nav-2 ".toList = className "-nav-2".toList :=
    ((ofText_iff_grammar _).2.1 _).mpr ⟨by decide, hname⟩
  have hstyle : (ofText "\t.-nav-2 ".toList).styleName? = some "_nav_2".toList := by
    rw [hclass]
    decide
  exact ⟨⟨hforeign, (ofText_iff_grammar _).2.2.2.2.1 hforeign⟩, hclass, hstyle,
    (ofText_iff_grammar _).2.2.2.2.2 _ hstyle⟩

end Selector

end CssResources
