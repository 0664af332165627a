import CssResources.Text.Nesting

/-!
# References to custom properties

A reference is written `var(--name)` or `var(--name, fallback)`, with blanks allowed
before the dashes and after the name. The fallback reaches to the parenthesis that
closes the reference, so it may hold references itself.

`CssResources.Piece.ofText` cuts a text into references and the texts between them. A
reference that begins and is not closed as it should ends the search: from there on the
text is literal, whatever it holds.
-/

namespace CssResources

/-! ### The opening of a reference -/

/-- A character that the name of a referenced property may have. -/
def isVariableChar (c : Char) : Bool := c.isAlphanum || c == '_' || c == '-'

/-- **The opening of a reference**: `var(`, the dashes, the name, and the blanks around
them. -/
structure Opening where
  /-- The text of the opening as written. -/
  written : Text
  /-- The name of the property, without the dashes. -/
  name : Text
  /-- The text after the opening. -/
  rest : Text
  deriving DecidableEq, Repr

/-- The opening of a reference at the start of a text. The name has a character or
more. -/
def opening? (t : Text) : Option Opening := do
  let inner ← afterStart? "var(".toList t
  let body ← afterStart? "--".toList (trimStart inner)
  let name := body.takeWhile isVariableChar
  let after := body.dropWhile isVariableChar
  if name.isEmpty then none
  else
    some {
      written := "var(".toList ++ inner.takeWhile isBlank ++ "--".toList ++ name
        ++ after.takeWhile isBlank
      name
      rest := trimStart after }

/-- **The first opening of a reference in a text**, and the text before it. -/
def firstOpening? : Text → Option (Text × Opening)
  | [] => none
  | c :: t =>
    match opening? (c :: t) with
    | some o => some ([], o)
    | none => (firstOpening? t).map fun p => (c :: p.1, p.2)

/-- **The text holds the opening of a reference.** Only the closing may be missing. -/
def hasReference (t : Text) : Bool := (firstOpening? t).isSome

@[simp] theorem firstOpening?_nil : firstOpening? [] = none := rfl

@[simp] theorem hasReference_nil : hasReference [] = false := rfl

/-- **The text of an opening and what follows it are the whole text.** -/
theorem eq_of_opening? {t : Text} {o : Opening} (h : opening? t = some o) :
    t = o.written ++ o.rest := by
  simp only [opening?, Option.bind_eq_bind, Option.bind_eq_some_iff,
    afterStart?_eq_some_iff] at h
  obtain ⟨inner, rfl, body, hbody, h⟩ := h
  split at h
  · simp at h
  · obtain rfl := Option.some.inj h
    have hinner : inner = inner.takeWhile isBlank ++ ("--".toList ++ body) := by
      rw [← hbody]
      exact List.takeWhile_append_dropWhile.symm
    have hlast : (body.dropWhile isVariableChar).takeWhile isBlank
        ++ trimStart (body.dropWhile isVariableChar) = body.dropWhile isVariableChar :=
      List.takeWhile_append_dropWhile
    simp only [List.append_assoc, hlast, List.takeWhile_append_dropWhile]
    rw [← hinner]

/-- The text before the first opening, the opening, and what follows it are the whole
text. -/
theorem eq_of_firstOpening? {t before : Text} {o : Opening}
    (h : firstOpening? t = some (before, o)) : t = before ++ (o.written ++ o.rest) := by
  induction t generalizing before with
  | nil => simp at h
  | cons c t ih =>
    rw [firstOpening?] at h
    split at h
    · rename_i o' ho
      obtain ⟨rfl, rfl⟩ : [] = before ∧ o' = o := by simpa using h
      exact eq_of_opening? ho
    · obtain ⟨p, hp, hpair⟩ := Option.map_eq_some_iff.mp h
      obtain ⟨rfl, rfl⟩ : c :: p.1 = before ∧ p.2 = o := by simpa using hpair
      simp [← ih hp]

/-- What follows an opening is no longer than the text. -/
theorem length_rest_of_firstOpening? {t before : Text} {o : Opening}
    (h : firstOpening? t = some (before, o)) : o.rest.length ≤ t.length := by
  rw [eq_of_firstOpening? h]
  simp only [List.length_append]
  omega

/-! ### The closing of a reference -/

/-- **The closing of a reference**: a parenthesis, or a comma, the fallback, and the
parenthesis after it. -/
structure Closing where
  /-- The text of the closing as written. -/
  written : Text
  /-- The fallback, if there is one. -/
  fallback? : Option Text
  /-- The text after the reference. -/
  rest : Text
  deriving DecidableEq, Repr

/-- The closing of a reference at the start of a text. -/
def closing? : Text → Option Closing
  | ')' :: t => some { written := [')'], fallback? := none, rest := t }
  | ',' :: t =>
    (closingParen? 0 t).map fun p =>
      { written := ',' :: p.1 ++ [')'], fallback? := some p.1, rest := p.2 }
  | _ => none

/-- The text of a closing and what follows it are the whole text. -/
theorem eq_of_closing? {t : Text} {c : Closing} (h : closing? t = some c) :
    t = c.written ++ c.rest := by
  unfold closing? at h
  split at h
  · obtain rfl := Option.some.inj h
    rfl
  · obtain ⟨p, hp, rfl⟩ := Option.map_eq_some_iff.mp h
    simp [eq_of_closingParen? hp]
  · simp at h

/-- A closing is a character or more, so what follows it is shorter. -/
theorem length_rest_of_closing? {t : Text} {c : Closing} (h : closing? t = some c) :
    c.rest.length < t.length := by
  unfold closing? at h
  split at h
  · obtain rfl := Option.some.inj h
    simp
  · obtain ⟨p, hp, rfl⟩ := Option.map_eq_some_iff.mp h
    rw [eq_of_closingParen? hp]
    simp only [List.length_append, List.length_cons]
    omega
  · simp at h

/-! ### Cutting a text at its references -/

/-- **A reference.** -/
structure Reference where
  /-- The name of the property, without the dashes. -/
  name : Text
  /-- What stands for the property if it is not defined. -/
  fallback? : Option Text
  /-- The text of the reference as written. -/
  written : Text
  deriving DecidableEq, Repr

/-- **A piece of a value**: a literal text, or a reference. -/
inductive Piece where
  /-- A text that stands for itself. -/
  | literal (text : Text)
  /-- A reference to a custom property. -/
  | reference (ref : Reference)
  deriving DecidableEq, Repr

/-- The text of a piece as written. -/
def Piece.written : Piece → Text
  | literal text => text
  | reference ref => ref.written

/-- **Cuts a text at its references.** A reference whose closing is missing ends the
search, and the rest of the text is literal. -/
def Piece.ofText (t : Text) : List Piece :=
  match _h : firstOpening? t with
  | none => [.literal t]
  | some (before, o) =>
    match _hc : closing? o.rest with
    | none => [.literal t]
    | some c =>
      .literal before ::
        .reference
          { name := o.name, fallback? := c.fallback?, written := o.written ++ c.written } ::
        Piece.ofText c.rest
termination_by t.length
decreasing_by
  exact Nat.lt_of_lt_of_le (length_rest_of_closing? _hc) (length_rest_of_firstOpening? _h)

/-- **A text is the text of its pieces.** -/
theorem Piece.written_ofText (t : Text) : (Piece.ofText t).flatMap Piece.written = t := by
  fun_induction Piece.ofText t with
  | case1 t h => simp [Piece.written]
  | case2 t before o h hc => simp [Piece.written]
  | case3 t before o h c hc ih =>
    simp only [List.flatMap_cons, Piece.written, ih, List.append_assoc]
    rw [← eq_of_closing? hc, ← eq_of_firstOpening? h]

end CssResources
