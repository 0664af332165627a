import CssResources.Text.Basic

/-!
# Erasing a pattern

`CssResources.erase` removes every occurrence of a pattern from a text, found from
left to right and without overlap. The text is read once: what comes together where
an occurrence was removed is not looked at again, so the result may hold the pattern.
-/

namespace CssResources

/-- Reads on after the first `skip` characters, which belong to an occurrence already
found. -/
def eraseFrom (pattern : Text) : Nat → Text → Text
  | _, [] => []
  | skip + 1, _ :: t => eraseFrom pattern skip t
  | 0, c :: t =>
    if pattern.isPrefixOf (c :: t) then eraseFrom pattern (pattern.length - 1) t
    else c :: eraseFrom pattern 0 t

/-- **The text without the occurrences of `pattern`**, which is a character or more. -/
def erase (pattern t : Text) : Text := eraseFrom pattern 0 t

@[simp] theorem eraseFrom_nil (pattern : Text) (skip : Nat) :
    eraseFrom pattern skip [] = [] := by
  cases skip <;> rfl

@[simp] theorem eraseFrom_succ (pattern : Text) (skip : Nat) (c : Char) (t : Text) :
    eraseFrom pattern (skip + 1) (c :: t) = eraseFrom pattern skip t := rfl

theorem erase_cons_of_isPrefixOf {pattern : Text} {c : Char} {t : Text}
    (h : pattern.isPrefixOf (c :: t) = true) :
    erase pattern (c :: t) = eraseFrom pattern (pattern.length - 1) t := by
  simp [erase, eraseFrom, h]

theorem erase_cons_of_not_isPrefixOf {pattern : Text} {c : Char} {t : Text}
    (h : pattern.isPrefixOf (c :: t) = false) :
    erase pattern (c :: t) = c :: erase pattern t := by
  simp [erase, eraseFrom, h]

end CssResources
