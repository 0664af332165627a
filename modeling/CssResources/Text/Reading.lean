import CssResources.Text.Basic

/-!
# Readings

Reading the start of a text gives a value and the rest of the text. The rest is shorter,
and a reading holds the proof of it: a reader that goes on with the rest ends, whatever
the text.
-/

namespace CssResources

/-- **A value read from the start of a text**, and what follows it. -/
structure Reading (α : Type) (t : Text) where
  /-- The value. -/
  value : α
  /-- What follows the text of the value. -/
  rest : Text
  /-- The value's text is a character or more. -/
  shorter : rest.length < t.length

namespace Reading

variable {α β : Type} {s t : Text}

/-- The reading with its value changed. -/
def map (f : α → β) (r : Reading α t) : Reading β t := ⟨f r.value, r.rest, r.shorter⟩

/-- A reading of a text that is no longer than another is as good for that one. -/
def weaken (h : s.length ≤ t.length) (r : Reading α s) : Reading α t :=
  ⟨r.value, r.rest, Nat.lt_of_lt_of_le r.shorter h⟩

/-- A value that the first character of a text stands for. -/
def head (value : α) {c : Char} : Reading α (c :: t) := ⟨value, t, Nat.lt_succ_self _⟩

/-- A reading of a text without its first character, for the whole text. -/
def ofTail {c : Char} (r : Reading α t) : Reading α (c :: t) := r.weaken (Nat.le_succ _)

/-- A reading of what follows a text, for both together. -/
def after (lead : Text) (r : Reading α t) : Reading α (lead ++ t) :=
  r.weaken (List.length_append ▸ Nat.le_add_left _ _)

end Reading

/-- What a test lets pass at the start of a text, if it is a character or more. -/
def readWhile (p : Char → Bool) (t : Text) : Option (Reading Text t) :=
  match t with
  | [] => none
  | c :: r =>
    if p c then
      some ⟨c :: r.takeWhile p, r.dropWhile p,
        Nat.lt_succ_of_le (List.dropWhile_sublist p).length_le⟩
    else none

theorem length_dropWhile_le {α : Type} (p : α → Bool) (l : List α) :
    (l.dropWhile p).length ≤ l.length :=
  (List.dropWhile_sublist p).length_le

end CssResources
