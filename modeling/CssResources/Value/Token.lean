import CssResources.Text.Nesting

/-!
# The tokens of a value

A value such as `4px var(--gap, 1px 2px)` is a row of tokens. Blanks separate them,
except inside parentheses: the second token above is the whole reference.
-/

namespace CssResources

/-- The parts of a value between the blanks outside parentheses, from the first part
on and with the empty ones. -/
def tokenParts : Nat → Text → List Text
  | _, [] => [[]]
  | depth, c :: t =>
    if isBlank c && depth == 0 then [] :: tokenParts 0 t
    else consHead c (tokenParts (depthAfter depth c) t)

/-- **The tokens of a value**: what stands between the blanks outside parentheses. -/
def tokens (value : Text) : List Text := (tokenParts 0 value).filter (!·.isEmpty)

@[simp] theorem tokenParts_nil (depth : Nat) : tokenParts depth [] = [[]] := by
  cases depth <;> rfl

@[simp] theorem tokens_nil : tokens [] = [] := rfl

/-- A blank outside parentheses belongs to no token. -/
theorem tokens_cons_of_isBlank {c : Char} {t : Text} (h : isBlank c = true) :
    tokens (c :: t) = tokens t := by
  simp [tokens, tokenParts, h]

end CssResources
