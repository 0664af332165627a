import CssResources.Text.Basic

/-!
# Operations that may be impossible

A list ends somewhere, an offset may lie inside a character, and there is nothing below zero.
Elsewhere this library cuts and counts in ways that cannot go wrong: it takes texts apart where it
stands, and stops at zero. The operations of this file take **positions, offsets and counts** as
they come, and say so if there is nothing there (`CssResources.Fault`).

| operation | it succeeds exactly if |
|---|---|
| `CssResources.elementAt` | the position is one of the list |
| `CssResources.predecessor` | the number is not zero |
| `CssResources.splitAtOffset` | so many bytes are whole characters of the text |

A function that is written with them and always has a result never asks for what is not there.
Offsets count the bytes of UTF-8, so that not every number up to the size of a text is one of its
offsets (`CssResources.splitAtOffset_eq_ok_iff`).
-/

namespace CssResources

/-- **What an operation asks for in vain.** -/
inductive Fault where
  /-- A position that the list does not have. -/
  | position
  /-- An offset that is beyond the end of the text or inside a character. -/
  | offset
  /-- A number below zero. -/
  | count
  deriving DecidableEq, Repr

/-- What is found is handed on. -/
@[simp] theorem ok_bind {α β : Type} (a : α) (f : α → Except Fault β) :
    (Except.ok a >>= f) = f a := rfl

/-! ### Positions and counts -/

/-- The element at a position. -/
def elementAt {α : Type} (l : List α) (position : Nat) : Except Fault α :=
  match l[position]? with
  | some a => .ok a
  | none => .error .position

theorem elementAt_of_getElem? {α : Type} {l : List α} {position : Nat} {a : α}
    (h : l[position]? = some a) : elementAt l position = .ok a := by
  rw [elementAt, h]

/-- The number before a number. -/
def predecessor : Nat → Except Fault Nat
  | 0 => .error .count
  | n + 1 => .ok n

theorem predecessor_of_ne_zero {n : Nat} (h : n ≠ 0) : predecessor n = .ok (n - 1) := by
  obtain ⟨m, rfl⟩ := Nat.exists_eq_succ_of_ne_zero h
  rfl

/-! ### Offsets -/

theorem utf8Size_cons (c : Char) (t : Text) :
    utf8Size (c :: t) = c.utf8Size + utf8Size t := rfl

theorem utf8Size_append (s t : Text) : utf8Size (s ++ t) = utf8Size s + utf8Size t := by
  induction s with
  | nil => exact (Nat.zero_add _).symm
  | cons c s ih => rw [List.cons_append, utf8Size_cons, ih, utf8Size_cons, Nat.add_assoc]

theorem utf8Size_concat (t : Text) (c : Char) :
    utf8Size (t ++ [c]) = utf8Size t + c.utf8Size := by
  rw [utf8Size_append]
  rfl

theorem utf8Size_pos {t : Text} (h : t ≠ []) : 0 < utf8Size t := by
  obtain ⟨c, t, rfl⟩ := List.exists_cons_of_ne_nil h
  rw [utf8Size_cons]
  exact Nat.add_pos_left c.utf8Size_pos _

/-- **Splits a text at an offset.** -/
def splitAtOffset : Nat → Text → Except Fault (Text × Text)
  | 0, t => .ok ([], t)
  | _ + 1, [] => .error .offset
  | n + 1, c :: t =>
    if n + 1 < c.utf8Size then .error .offset
    else (splitAtOffset (n + 1 - c.utf8Size) t).map fun p => (c :: p.1, p.2)

/-- The size of a beginning of a text is an offset. -/
theorem splitAtOffset_append (s t : Text) :
    splitAtOffset (utf8Size s) (s ++ t) = .ok (s, t) := by
  induction s with
  | nil =>
    cases t with
    | nil => rfl
    | cons c t => rfl
  | cons c s ih =>
    obtain ⟨n, hn⟩ : ∃ n, utf8Size (c :: s) = n + 1 :=
      Nat.exists_eq_succ_of_ne_zero (Nat.ne_of_gt (utf8Size_pos (List.cons_ne_nil c s)))
    have hsize : n + 1 - c.utf8Size = utf8Size s := by
      rw [← hn, utf8Size_cons, Nat.add_sub_cancel_left]
    have hfits : ¬n + 1 < c.utf8Size := by
      rw [← hn, utf8Size_cons]
      omega
    rw [hn, List.cons_append, splitAtOffset, if_neg hfits, hsize, ih]
    rfl

/-- What a text is split into at an offset is the text, and the first part has the size of the
offset. -/
theorem eq_of_splitAtOffset {n : Nat} {t u v : Text} (h : splitAtOffset n t = .ok (u, v)) :
    t = u ++ v ∧ utf8Size u = n := by
  induction t generalizing n u with
  | nil =>
    cases n with
    | zero =>
      obtain ⟨rfl, rfl⟩ := Prod.mk.inj (Except.ok.inj h)
      exact ⟨rfl, rfl⟩
    | succ n => simp [splitAtOffset] at h
  | cons c t ih =>
    cases n with
    | zero =>
      obtain ⟨rfl, rfl⟩ := Prod.mk.inj (Except.ok.inj h)
      exact ⟨rfl, rfl⟩
    | succ n =>
      rw [splitAtOffset] at h
      split at h
      · simp at h
      · rename_i hfits
        cases hp : splitAtOffset (n + 1 - c.utf8Size) t with
        | error e => simp [hp, Except.map] at h
        | ok p =>
          rw [hp] at h
          obtain ⟨rfl, rfl⟩ := Prod.mk.inj (Except.ok.inj h)
          obtain ⟨ht, hsize⟩ := ih hp
          refine ⟨congrArg (c :: ·) ht, ?_⟩
          rw [utf8Size_cons, hsize]
          omega

/-- **The offsets of a text are the sizes of its beginnings**, and nothing else. -/
theorem splitAtOffset_eq_ok_iff {n : Nat} {t u v : Text} :
    splitAtOffset n t = .ok (u, v) ↔ t = u ++ v ∧ utf8Size u = n := by
  constructor
  · exact eq_of_splitAtOffset
  · rintro ⟨rfl, rfl⟩
    exact splitAtOffset_append u v

/-- The text from an offset on. -/
def textFrom (start : Nat) (t : Text) : Except Fault Text := do
  let parts ← splitAtOffset start t
  return parts.2

/-- The text from one offset up to another one. -/
def slice (start stop : Nat) (t : Text) : Except Fault Text := do
  let parts ← splitAtOffset stop t
  textFrom start parts.1

theorem textFrom_append (s t : Text) : textFrom (utf8Size s) (s ++ t) = .ok t := by
  have hsplit : splitAtOffset (utf8Size s) (s ++ t) = .ok (s, t) :=
    splitAtOffset_eq_ok_iff.mpr ⟨rfl, rfl⟩
  rw [textFrom, hsplit, ok_bind]
  rfl

/-- **A text in the middle of another one is its slice.** -/
theorem slice_append (s w t : Text) :
    slice (utf8Size s) (utf8Size (s ++ w)) (s ++ (w ++ t)) = .ok w := by
  have hsplit : splitAtOffset (utf8Size (s ++ w)) (s ++ (w ++ t)) = .ok (s ++ w, t) :=
    splitAtOffset_eq_ok_iff.mpr ⟨(List.append_assoc s w t).symm, rfl⟩
  rw [slice, hsplit, ok_bind, textFrom_append]

/-- A beginning of a text is its slice. -/
theorem slice_zero_append (s t : Text) : slice 0 (utf8Size s) (s ++ t) = .ok s :=
  slice_append [] s t

end CssResources
