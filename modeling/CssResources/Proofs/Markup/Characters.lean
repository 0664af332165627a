import CssResources.Proofs.Markup.Dashes
import CssResources.Proofs.Text.Blank
import CssResources.Proofs.Text.Parts

/-!
# The characters of a document

A document of XML may not hold every character: the controls other than tab, line feed and carriage
return are left out, and so are the code points `FFFE` and `FFFF` (`CssResources.isXmlChar`). There
is no entity for them either, so escaping is of no help.

What is made of a text may hold such a character only if the text does. This is said with an
**origin**, the texts that something is made of: all its characters are characters of XML or of its
origin (`CssResources.StemsFrom`). Escaping, commenting out and the pieces of a document add
characters of XML only (`CssResources.stemsFrom_stylesDocument`,
`CssResources.stemsFrom_colorsDocument`).
-/

namespace CssResources

/-! ### Characters of XML -/

/-- **The code points of XML**, by its production for a character. -/
def isXmlCode (n : Nat) : Bool :=
  n == 0x9 || n == 0xA || n == 0xD || (0x20 ≤ n && n ≤ 0xD7FF) || (0xE000 ≤ n && n ≤ 0xFFFD)
    || (0x10000 ≤ n && n ≤ 0x10FFFF)

/-- **A character that a document of XML may hold.** -/
def isXmlChar (c : Char) : Bool := isXmlCode c.toNat

/-- **The characters of a text that no document of XML may hold**, in their order. -/
def illegalChars (t : Text) : Text := t.filter (!isXmlChar ·)

theorem isXmlCode_iff {n : Nat} :
    isXmlCode n = true ↔ n = 0x9 ∨ n = 0xA ∨ n = 0xD ∨ (0x20 ≤ n ∧ n ≤ 0xD7FF) ∨
      (0xE000 ≤ n ∧ n ≤ 0xFFFD) ∨ (0x10000 ≤ n ∧ n ≤ 0x10FFFF) := by
  simp only [isXmlCode, Bool.or_eq_true, Bool.and_eq_true, beq_iff_eq, decide_eq_true_eq, or_assoc]

theorem isXmlCode_of_ascii {n : Nat} (hlow : 0x20 ≤ n) (hhigh : n < 0x80) :
    isXmlCode n = true :=
  isXmlCode_iff.mpr (by omega)

/-- A code point of XML is that of a character. -/
theorem toNat_ofNat_of_isXmlCode {n : Nat} (h : isXmlCode n = true) : (Char.ofNat n).toNat = n := by
  have hvalid : n.isValidChar := by
    have hrange := isXmlCode_iff.mp h
    rw [Nat.isValidChar]
    omega
  rw [Char.ofNat, dif_pos hvalid]
  rfl

theorem isXmlChar_ofNat {n : Nat} (h : isXmlCode n = true) : isXmlChar (Char.ofNat n) = true := by
  rwa [isXmlChar, toNat_ofNat_of_isXmlCode h]

/-! ### Origins -/

/-- **A text stems from its origin**: each of its characters is a character of XML or of the
origin. -/
def StemsFrom (origin t : Text) : Prop := ∀ c ∈ t, isXmlChar c = true ∨ c ∈ origin

namespace StemsFrom

variable {origin s t : Text}

/-- What stems from an origin has no other illegal characters. -/
theorem illegalChars_subset (h : StemsFrom origin t) :
    illegalChars t ⊆ illegalChars origin := by
  intro c hc
  obtain ⟨hmem, hillegal⟩ := List.mem_filter.mp hc
  refine List.mem_filter.mpr ⟨(h c hmem).resolve_left fun hlegal => ?_, hillegal⟩
  rw [hlegal] at hillegal
  exact absurd hillegal (by decide)

theorem nil : StemsFrom origin [] := fun _ hc => absurd hc List.not_mem_nil

/-- A part of the origin stems from it. -/
theorem of_subset (h : t ⊆ origin) : StemsFrom origin t := fun _ hc => Or.inr (h hc)

theorem refl (t : Text) : StemsFrom t t := of_subset (List.Subset.refl t)

/-- Characters of XML stem from anything. -/
theorem of_all (h : t.all isXmlChar = true) : StemsFrom origin t :=
  fun c hc => Or.inl (List.all_eq_true.mp h c hc)

/-- What stems from a text stems from what the text stems from. -/
theorem trans (h : StemsFrom s t) (hs : StemsFrom origin s) : StemsFrom origin t :=
  fun c hc => (h c hc).elim Or.inl (hs c)

/-- What is left of a text stems from what the text stems from. -/
theorem mono (h : StemsFrom origin t) (hs : s ⊆ t) : StemsFrom origin s := fun c hc => h c (hs hc)

theorem append (hs : StemsFrom origin s) (ht : StemsFrom origin t) : StemsFrom origin (s ++ t) :=
  fun c hc => (List.mem_append.mp hc).elim (hs c) (ht c)

theorem cons {c : Char} (hc : isXmlChar c = true) (ht : StemsFrom origin t) :
    StemsFrom origin (c :: t) :=
  List.forall_mem_cons.mpr ⟨Or.inl hc, ht⟩

theorem flatMap {α : Type} {f : α → Text} {l : List α} (h : ∀ a ∈ l, StemsFrom origin (f a)) :
    StemsFrom origin (l.flatMap f) := by
  intro c hc
  obtain ⟨a, ha, hc⟩ := List.mem_flatMap.mp hc
  exact h a ha c hc

end StemsFrom

/-! ### Escaping -/

variable {origin t : Text}

theorem stemsFrom_substitute {c : Char} {entity : Text} (hentity : entity.all isXmlChar = true)
    (h : StemsFrom origin t) : StemsFrom origin (substitute c entity t) := by
  refine StemsFrom.flatMap fun x hx => ?_
  split
  · exact StemsFrom.of_all hentity
  · exact h.mono (List.cons_subset.mpr ⟨hx, List.nil_subset t⟩)

theorem stemsFrom_escapeText (h : StemsFrom origin t) : StemsFrom origin (escapeText t) :=
  stemsFrom_substitute (by decide) (stemsFrom_substitute (by decide)
    (stemsFrom_substitute (by decide) h))

theorem stemsFrom_escapeAttribute (h : StemsFrom origin t) :
    StemsFrom origin (escapeAttribute t) :=
  stemsFrom_substitute (by decide) (stemsFrom_escapeText h)

/-! ### Comments -/

/-- Nothing is added where runs of dashes are shortened. -/
theorem squeezeDashes_sublist (t : Text) : (squeezeDashes t).Sublist t := by
  induction t with
  | nil => exact List.Sublist.refl []
  | cons c t ih =>
    rw [squeezeDashes_cons]
    split
    · exact ih.trans (List.sublist_cons_self c t)
    · exact ih.cons_cons c

theorem stemsFrom_commentOut (h : StemsFrom origin t) : StemsFrom origin (commentOut t) := by
  have hinside : (trimEnd (trimEndOf '-' (shortenDashes t))).Sublist t := by
    rw [shortenDashes_eq_squeezeDashes]
    exact ((trimEnd_isPrefix _).trans (trimEndOf_isPrefix '-' _)).sublist.trans
      (squeezeDashes_sublist t)
  exact ((StemsFrom.of_all (by decide)).append (h.mono hinside.subset)).append
    (StemsFrom.of_all (by decide))

/-! ### Documents -/

theorem stemsFrom_documentLine (indent : Nat) (commented : Bool) (h : StemsFrom origin t) :
    StemsFrom origin (documentLine indent commented t) := by
  have htabs : StemsFrom origin (List.replicate indent '\t') := by
    intro c hc
    rw [List.eq_of_mem_replicate hc]
    exact Or.inl (by decide)
  have hline : StemsFrom origin (if commented then commentOut t else t) := by
    split
    · exact stemsFrom_commentOut h
    · exact h
  exact (htabs.append hline).append (StemsFrom.of_all (by decide))

/-- **An item stems from its origin**: its name and its value do. -/
structure Item.StemsFrom (origin : Text) (i : Item) : Prop where
  /-- The name does. -/
  name : CssResources.StemsFrom origin i.name
  /-- The value does. -/
  value : CssResources.StemsFrom origin i.value

theorem Item.StemsFrom.trans {i : Item} (h : i.StemsFrom t) (ht : CssResources.StemsFrom origin t) :
    i.StemsFrom origin :=
  ⟨h.name.trans ht, h.value.trans ht⟩

/-- **A style stems from its origin**: its name and its items do. -/
structure Style.StemsFrom (origin : Text) (s : Style) : Prop where
  /-- The name does. -/
  name : CssResources.StemsFrom origin s.name
  /-- The items do. -/
  items : ∀ i ∈ s.items, i.StemsFrom origin

/-- **A color stems from its origin**: its name and its value do. -/
structure ColorResource.StemsFrom (origin : Text) (c : ColorResource) : Prop where
  /-- The name does. -/
  name : CssResources.StemsFrom origin c.name
  /-- The value does. -/
  value : CssResources.StemsFrom origin c.value

theorem ColorResource.StemsFrom.trans {c : ColorResource} (h : c.StemsFrom t)
    (ht : CssResources.StemsFrom origin t) : c.StemsFrom origin :=
  ⟨h.name.trans ht, h.value.trans ht⟩

/-- An element with a name and a value stems from where they stem from. -/
theorem stemsFrom_element {opening closing name value : Text}
    (hopening : opening.all isXmlChar = true) (hclosing : closing.all isXmlChar = true)
    (hname : StemsFrom origin name) (hvalue : StemsFrom origin value) :
    StemsFrom origin
      (opening ++ escapeAttribute name ++ "\">".toList ++ escapeText value ++ closing) :=
  ((((StemsFrom.of_all hopening).append (stemsFrom_escapeAttribute hname)).append
    (StemsFrom.of_all (by decide))).append (stemsFrom_escapeText hvalue)).append
    (StemsFrom.of_all hclosing)

theorem Item.StemsFrom.element {i : Item} (h : i.StemsFrom origin) :
    CssResources.StemsFrom origin i.element :=
  stemsFrom_element (by decide) (by decide) h.name h.value

theorem ColorResource.StemsFrom.element {c : ColorResource} (h : c.StemsFrom origin) :
    CssResources.StemsFrom origin c.element :=
  stemsFrom_element (by decide) (by decide) h.name h.value

theorem Style.StemsFrom.lines {s : Style} (h : s.StemsFrom origin) :
    CssResources.StemsFrom origin s.lines := by
  have hitems : CssResources.StemsFrom origin
      (s.items.flatMap fun i => documentLine 2 i.commented i.element) :=
    StemsFrom.flatMap fun i hi => stemsFrom_documentLine _ _ (h.items i hi).element
  exact ((((StemsFrom.of_all (by decide)).append (stemsFrom_escapeAttribute h.name)).append
    (StemsFrom.of_all (by decide))).append hitems).append (StemsFrom.of_all (by decide))

theorem stemsFrom_resourcesElement (h : StemsFrom origin t) :
    StemsFrom origin (resourcesElement t) :=
  ((StemsFrom.of_all (by decide)).append h).append (StemsFrom.of_all (by decide))

/-- **The document of styles stems from where the styles stem from.** -/
theorem stemsFrom_stylesDocument {styles : List Style} (h : ∀ s ∈ styles, s.StemsFrom origin) :
    StemsFrom origin (stylesDocument styles) :=
  stemsFrom_resourcesElement (StemsFrom.flatMap fun s hs => (h s hs).lines)

/-- **The document of colors stems from where the colors stem from.** -/
theorem stemsFrom_colorsDocument {colors : List ColorResource}
    (h : ∀ c ∈ colors, c.StemsFrom origin) : StemsFrom origin (colorsDocument colors) :=
  (StemsFrom.of_all (by decide)).append (stemsFrom_resourcesElement
    (StemsFrom.flatMap fun c hc => stemsFrom_documentLine _ _ (h c hc).element))

end CssResources
