import CssResources.Text.Basic

/-!
# Quotes and parentheses

Two small pieces of state say where in a text a separator counts: the quote that is
open (`CssResources.quoteAfter`), and the number of parentheses that are
(`CssResources.depthAfter`). Both are total: a quote is closed by its own character
only, and a closing parenthesis that closes nothing leaves the depth at zero.
-/

namespace CssResources

/-- **The quote open after one more character.** An open quote is closed by the same
character; outside quotes `"` and the apostrophe open one. -/
def quoteAfter : Option Char → Char → Option Char
  | some q, c => if c = q then none else some q
  | none, c => if c = '"' || c = '\'' then some c else none

@[simp] theorem quoteAfter_some (q c : Char) :
    quoteAfter (some q) c = if c = q then none else some q := rfl

/-- **The number of open parentheses after one more character**; closing none leaves
it at zero. -/
def depthAfter (depth : Nat) (c : Char) : Nat :=
  if c = '(' then depth + 1 else if c = ')' then depth - 1 else depth

/-- The part of a text up to the parenthesis that closes the one already open, and what
follows that parenthesis. -/
def closingParen? : Nat → Text → Option (Text × Text)
  | _, [] => none
  | depth, c :: t =>
    if c = ')' ∧ depth = 0 then some ([], t)
    else (closingParen? (depthAfter depth c) t).map fun p => (c :: p.1, p.2)

@[simp] theorem closingParen?_nil (depth : Nat) : closingParen? depth [] = none := by
  cases depth <;> rfl

/-- Nothing is lost: the text is what comes before the parenthesis, the parenthesis,
and what follows it. -/
theorem eq_of_closingParen? {depth : Nat} {t inside rest : Text}
    (h : closingParen? depth t = some (inside, rest)) : t = inside ++ ')' :: rest := by
  induction t generalizing depth inside with
  | nil => simp at h
  | cons c t ih =>
    rw [closingParen?] at h
    split at h
    · rename_i hc
      obtain ⟨rfl, rfl⟩ : inside = [] ∧ t = rest := by simpa using h
      simp [hc.1]
    · obtain ⟨p, hp, hpair⟩ := Option.map_eq_some_iff.mp h
      obtain ⟨rfl, rfl⟩ : c :: p.1 = inside ∧ p.2 = rest := by simpa using hpair
      simp [ih hp]

end CssResources
