import CssResources.Proofs.Text.Enclosed
import CssResources.Proofs.Text.Parts
import CssResources.Proofs.Variable.Absence
import CssResources.Proofs.Variable.Substitution

/-!
# How references are spelled

A reference is found by `CssResources.opening?` and `CssResources.closing?`, which read on from
wherever they are put. This file says what they read by what is written: an opening is **`var(`,
blanks, two dashes, a name, and blanks** (`CssResources.openingText`), and the mark after it, a
parenthesis or a comma, says which of the two closings there is.

| | what is read was spelled so | what is spelled so is read |
|---|---|---|
| the opening | `CssResources.exists_eq_openingText` | `CssResources.opening?_openingText` |
| the mark | `CssResources.exists_mark_of_closing?` | `CssResources.closing?` itself |
| the fallback | `CssResources.eq_fallback_of_closing?` | `CssResources.closing?_fallback` |

What comes before a reference must not begin one, and it is enough that `var(` does not occur in
it: the four characters are different, so that no `var(` begins in the one text and ends in the
other (`CssResources.firstOpening?_append`). What comes after a reference does not matter at all.
-/

namespace CssResources

/-! ### Openings -/

/-- **A name that a reference can have.** -/
structure IsVariableName (name : Text) : Prop where
  /-- It has a character. -/
  ne_nil : name ≠ []
  /-- It has letters, digits, dashes and underscores only. -/
  nameChars : ∀ c ∈ name, isVariableChar c = true

/-- **The opening of a reference as it is written**, with blanks in front of the dashes and after
the name. -/
def openingText (lead name trail : Text) : Text :=
  "var(".toList ++ lead ++ "--".toList ++ name ++ trail

theorem openingText_append (lead name trail rest : Text) :
    openingText lead name trail ++ rest =
      "var(".toList ++ (lead ++ ("--".toList ++ (name ++ (trail ++ rest)))) := by
  show "var(".toList ++ lead ++ "--".toList ++ name ++ trail ++ rest = _
  simp only [List.append_assoc]

/-- **What is read as an opening is spelled as one.** -/
theorem exists_eq_openingText {t : Text} {o : Opening} (h : opening? t = some o) :
    IsVariableName o.name ∧ ∃ lead trail, isAllBlank lead = true ∧ isAllBlank trail = true ∧
      o.written = openingText lead o.name trail := by
  simp only [opening?, Option.bind_eq_bind, Option.bind_eq_some_iff] at h
  obtain ⟨inner, -, body, -, h⟩ := h
  split at h
  · simp at h
  · rename_i hname
    obtain rfl := Option.some.inj h
    exact ⟨⟨by simpa using hname, fun _ => List.mem_takeWhile_imp⟩, _, _, isAllBlank_takeWhile _,
      isAllBlank_takeWhile _, rfl⟩

/-- **What is spelled as an opening is read as one**, if a mark follows that is neither blank nor
part of a name. -/
theorem opening?_openingText {lead name trail rest : Text} (hname : IsVariableName name)
    (hlead : isAllBlank lead = true) (htrail : isAllBlank trail = true)
    (hrest : ∀ c ∈ rest.head?, isBlank c = false ∧ isVariableChar c = false) :
    opening? (openingText lead name trail ++ rest) =
      some { written := openingText lead name trail, name, rest } := by
  have hdash : ∀ c ∈ ("--".toList ++ (name ++ (trail ++ rest))).head?, isBlank c = false := by
    intro c hc
    obtain rfl : '-' = c := Option.some.inj hc
    decide
  have hafter : ∀ c ∈ (trail ++ rest).head?, isVariableChar c = false := by
    cases trail with
    | nil => exact fun c hc => (hrest c hc).2
    | cons b trail =>
      intro c hc
      obtain rfl : b = c := Option.some.inj hc
      exact isVariableChar_of_isBlank (isBlank_of_mem_isAllBlank htrail (List.mem_cons_self ..))
  have hmark : ∀ c ∈ rest.head?, isBlank c = false := fun c hc => (hrest c hc).1
  have hleadAll : ∀ c ∈ lead, isBlank c = true := fun c => isBlank_of_mem_isAllBlank hlead
  have htrailAll : ∀ c ∈ trail, isBlank c = true := fun c => isBlank_of_mem_isAllBlank htrail
  have hvar : afterStart? "var(".toList (openingText lead name trail ++ rest) =
      some (lead ++ ("--".toList ++ (name ++ (trail ++ rest)))) :=
    afterStart?_eq_some_iff.mpr (openingText_append lead name trail rest)
  have hdashes : afterStart? "--".toList ("--".toList ++ (name ++ (trail ++ rest))) =
      some (name ++ (trail ++ rest)) := afterStart?_eq_some_iff.mpr rfl
  have hbody : trimStart (lead ++ ("--".toList ++ (name ++ (trail ++ rest)))) =
      "--".toList ++ (name ++ (trail ++ rest)) := dropWhile_append_stop hleadAll hdash
  have hrestStart : trimStart (trail ++ rest) = rest := dropWhile_append_stop htrailAll hmark
  simp only [opening?, hvar, Option.bind_eq_bind, Option.bind_some, hbody, hdashes]
  rw [takeWhile_append_stop hname.nameChars hafter, dropWhile_append_stop hname.nameChars hafter,
    if_neg (by simpa using hname.ne_nil), takeWhile_append_stop hleadAll hdash,
    takeWhile_append_stop htrailAll hmark, hrestStart]
  rfl

theorem firstOpening?_of_opening? {t : Text} {o : Opening} (h : opening? t = some o) :
    firstOpening? t = some ([], o) := by
  cases t with
  | nil => simp [opening?, afterStart?] at h
  | cons c t => rw [firstOpening?, h]

/-- An opening that is found is read so where it stands. -/
theorem opening?_of_firstOpening? {t before : Text} {o : Opening}
    (h : firstOpening? t = some (before, o)) : opening? (o.written ++ o.rest) = some o := by
  induction t generalizing before with
  | nil => simp at h
  | cons x t ih =>
    rw [firstOpening?] at h
    split at h
    · rename_i o' ho
      obtain ⟨-, rfl⟩ := Prod.mk.inj (Option.some.inj h)
      rwa [← eq_of_opening? ho]
    · obtain ⟨p, hp, hpair⟩ := Option.map_eq_some_iff.mp h
      obtain ⟨-, rfl⟩ := Prod.mk.inj hpair
      exact ih hp

/-- **An opening is the first one**, if `var(` does not occur in what comes before it. -/
theorem firstOpening?_append {before t : Text} {o : Opening}
    (hbefore : ¬"var(".toList <:+: before) (h : opening? t = some o) :
    firstOpening? (before ++ t) = some (before, o) := by
  obtain ⟨inner, ht⟩ : ∃ inner, t = "var(".toList ++ inner := by
    obtain ⟨inner, hinner, -⟩ := Option.bind_eq_some_iff.mp h
    exact ⟨inner, afterStart?_eq_some_iff.mp hinner⟩
  induction before with
  | nil => exact firstOpening?_of_opening? h
  | cons x before ih =>
    have hnone : opening? (x :: before ++ t) = none := by
      have hstart : ¬"var(".toList <+: x :: before ++ t :=
        not_isPrefix_append (by decide) (List.cons_ne_nil x before)
          (fun hprefix => hbefore hprefix.isInfix) (by rw [ht]; rfl)
      have hvar : afterStart? "var(".toList (x :: before ++ t) = none := by
        rwa [← isSome_afterStart?_iff, Option.not_isSome_iff_eq_none] at hstart
      rw [opening?, hvar]
      rfl
    rw [List.cons_append] at hnone ⊢
    rw [firstOpening?, hnone, ih fun hmore => hbefore (hmore.trans (List.suffix_cons x _).isInfix)]
    rfl

/-! ### Closings -/

/-- What is read as a closing begins with one of two marks. -/
theorem exists_mark_of_closing? {t : Text} {d : Closing} (h : closing? t = some d) :
    ∃ mark tail, (mark = ')' ∨ mark = ',') ∧ d.written = mark :: tail := by
  unfold closing? at h
  split at h
  · obtain rfl := Option.some.inj h
    exact ⟨')', [], Or.inl rfl, rfl⟩
  · obtain ⟨p, -, rfl⟩ := Option.map_eq_some_iff.mp h
    exact ⟨',', p.1 ++ [')'], Or.inr rfl, rfl⟩
  · simp at h

/-- Neither mark is blank or part of a name. -/
theorem head?_mark {mark : Char} (hmark : mark = ')' ∨ mark = ',') (t : Text) :
    ∀ c ∈ (mark :: t).head?, isBlank c = false ∧ isVariableChar c = false := by
  intro c hc
  obtain rfl : mark = c := Option.some.inj hc
  rcases hmark with rfl | rfl <;> decide

/-- **The parenthesis that is open is closed by the first one after a text that is balanced with
it.** -/
theorem closingParen?_append_cons {depth : Nat} {t : Text}
    (h : Brackets.parens.depthAtEnd? depth t = some 0) (s : Text) :
    closingParen? depth (t ++ ')' :: s) = some (t, s) := by
  induction t generalizing depth with
  | nil =>
    obtain rfl := Option.some.inj h
    rfl
  | cons c t ih =>
    rw [Brackets.depthAtEnd?_cons] at h
    obtain ⟨depth', hdepth, h⟩ := Option.bind_eq_some_iff.mp h
    have hopen : ¬(c = ')' ∧ depth = 0) := by
      rintro ⟨rfl, rfl⟩
      simp [Brackets.after?, Brackets.parens] at hdepth
    rw [List.cons_append, closingParen?, if_neg hopen, Brackets.depthAfter_of_after? hdepth, ih h]
    rfl

/-- **A fallback with balanced parentheses is read whole.** -/
theorem closing?_fallback {fallback : Text} (h : Brackets.parens.IsBalanced fallback) (s : Text) :
    closing? (',' :: (fallback ++ ')' :: s)) =
      some { written := ',' :: fallback ++ [')'], fallback? := some fallback, rest := s } := by
  rw [closing?, closingParen?_append_cons h]
  rfl

/-! ### References -/

/-- **A reference that is spelled out is the first one**, if `var(` does not occur in what comes
before it. -/
theorem firstReference?_openingText {before lead name trail t : Text} {d : Closing}
    (hbefore : ¬"var(".toList <:+: before) (hname : IsVariableName name)
    (hlead : isAllBlank lead = true) (htrail : isAllBlank trail = true)
    (hd : closing? t = some d) :
    firstReference? (before ++ (openingText lead name trail ++ t)) =
      some
        { before
          reference :=
            { name, fallback? := d.fallback?, written := openingText lead name trail ++ d.written }
          after := d.rest } := by
  have hmark : ∀ c ∈ t.head?, isBlank c = false ∧ isVariableChar c = false := by
    obtain ⟨mark, tail, hmark, hwritten⟩ := exists_mark_of_closing? hd
    rw [eq_of_closing? hd, hwritten]
    exact head?_mark hmark _
  have hopening := opening?_openingText hname hlead htrail hmark
  rw [firstReference?, firstOpening?_append hbefore hopening]
  simp [hd]

/-- A text in which `var(` does not occur has no reference. -/
theorem firstReference?_of_not_isInfix {t : Text} (h : ¬"var(".toList <:+: t) :
    firstReference? t = none := by
  have hnone : firstOpening? t = none := by
    have href : ¬hasReference t = true := fun href => h (isInfix_of_hasReference href)
    rwa [hasReference, Option.not_isSome_iff_eq_none] at href
  rw [firstReference?, hnone]
  rfl

end CssResources
