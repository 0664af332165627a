import CssResources.Proofs.Markup.Reading
import CssResources.Proofs.Text.Blank
import CssResources.Resource.Document

/-!
# Entities stand for the characters that they were written for

Escaping is a chain of substitutions over the whole text, each of which sees what the ones
before it wrote. The ampersands come first, so the entities written later stay as they are,
and the chain comes to **one entity or one character for each character**
(`CssResources.escapeText_cons`, `CssResources.escapeAttribute_cons`). Read from left to
right the entities give back the text (`CssResources.Markup.decode?_escapeText`,
`CssResources.Markup.decode?_escapeAttribute`).

What is escaped holds no mark that a reader could stop at: no `<`, and in an attribute no
double quote.
-/

namespace CssResources

/-! ### Marks that are gone -/

/-- A character is not in a text after the substitution of all of it, or after any other one
of a text without it. -/
theorem not_mem_substitute {c d : Char} {entity t : Text} (hentity : d ∉ entity)
    (h : d = c ∨ d ∉ t) : d ∉ substitute c entity t := by
  induction t with
  | nil => simp
  | cons x t ih =>
    have htail : d ∉ substitute c entity t :=
      ih (h.imp id fun hd hmem => hd (List.mem_cons_of_mem x hmem))
    rw [substitute_cons, List.mem_append, not_or]
    refine ⟨?_, htail⟩
    split
    · exact hentity
    · rename_i hx
      intro hd
      obtain rfl := List.mem_singleton.mp hd
      exact h.elim hx fun hd => hd (List.mem_cons_self ..)

/-- **Element text has no `<`.** -/
theorem lt_not_mem_escapeText (t : Text) : '<' ∉ escapeText t := by
  refine not_mem_substitute (by decide) (Or.inr ?_)
  exact not_mem_substitute (by decide) (Or.inl rfl)

/-- **An attribute's value has no `<`.** -/
theorem lt_not_mem_escapeAttribute (t : Text) : '<' ∉ escapeAttribute t :=
  not_mem_substitute (by decide) (Or.inr (lt_not_mem_escapeText t))

/-- **An attribute's value has no double quote.** -/
theorem quote_not_mem_escapeAttribute (t : Text) : '"' ∉ escapeAttribute t :=
  not_mem_substitute (by decide) (Or.inl rfl)

/-! ### One character after the other -/

theorem escapeText_cons (c : Char) (t : Text) :
    escapeText (c :: t) = escapeText [c] ++ escapeText t := by
  rw [← List.singleton_append]
  simp only [escapeText, substitute_append]

theorem escapeAttribute_cons (c : Char) (t : Text) :
    escapeAttribute (c :: t) = escapeAttribute [c] ++ escapeAttribute t := by
  rw [escapeAttribute, escapeText_cons, substitute_append, escapeAttribute, escapeAttribute]

namespace Markup

/-- A character that begins no entity stands for itself. -/
theorem decode?_cons {c : Char} (hc : c ≠ '&') (t : Text) :
    decode? (c :: t) = (decode? t).map (c :: ·) := by
  rw [decode?.eq_def]
  split <;> simp_all

/-- A text without an `&` stands for itself. -/
theorem decode?_of_not_mem {t : Text} (h : '&' ∉ t) : decode? t = some t := by
  induction t with
  | nil => rfl
  | cons c t ih =>
    have hc : c ≠ '&' := fun hc => h (hc ▸ List.mem_cons_self ..)
    rw [decode?_cons hc, ih fun ht => h (List.mem_cons_of_mem c ht), Option.map_some]

theorem decode?_of_isAllBlank {t : Text} (h : isAllBlank t = true) : decode? t = some t :=
  decode?_of_not_mem (not_mem_of_isAllBlank h (by decide))

/-- What is written for a character in element text is read as this character. -/
theorem decode?_escapeText_append (c : Char) (rest : Text) :
    decode? (escapeText [c] ++ rest) = (decode? rest).map (c :: ·) := by
  by_cases hamp : c = '&'
  · subst hamp
    rfl
  by_cases hlt : c = '<'
  · subst hlt
    rfl
  by_cases hgt : c = '>'
  · subst hgt
    rfl
  have hself : escapeText [c] = [c] := by simp [escapeText, hamp, hlt, hgt]
  rw [hself, List.singleton_append, decode?_cons hamp]

/-- What is written for a character in an attribute is read as this character. -/
theorem decode?_escapeAttribute_append (c : Char) (rest : Text) :
    decode? (escapeAttribute [c] ++ rest) = (decode? rest).map (c :: ·) := by
  by_cases hquote : c = '"'
  · subst hquote
    rfl
  -- every other character is written as in element text, where no double quote comes in
  have hsame : escapeAttribute [c] = escapeText [c] := by
    by_cases hamp : c = '&'
    · subst hamp
      rfl
    by_cases hlt : c = '<'
    · subst hlt
      rfl
    by_cases hgt : c = '>'
    · subst hgt
      rfl
    simp [escapeAttribute, escapeText, hamp, hlt, hgt, hquote]
  rw [hsame, decode?_escapeText_append]

/-- **Element text stands for what it was written for.** -/
theorem decode?_escapeText (t : Text) : decode? (escapeText t) = some t := by
  induction t with
  | nil => rfl
  | cons c t ih => rw [escapeText_cons, decode?_escapeText_append, ih, Option.map_some]

/-- **An attribute's value stands for what it was written for.** -/
theorem decode?_escapeAttribute (t : Text) : decode? (escapeAttribute t) = some t := by
  induction t with
  | nil => rfl
  | cons c t ih => rw [escapeAttribute_cons, decode?_escapeAttribute_append, ih, Option.map_some]

end Markup

end CssResources
