import CssResources.Proofs.Stylesheet.Definitions

/-!
# Texts with their comments

A source is a row of texts with comments between them, and its last comment may be open to the end
(`CssResources.CommentedText`). **It is one in exactly one way**
(`CssResources.CommentedText.exists_written`, `CssResources.CommentedText.written_injective`): a
comment begins at the first `/*`, and ends at the first `*/` behind these two characters. So `/*/`
opens a comment and does not close it, and a slash in front of a comment opens none together with a
star behind it.

What is left of the source without its comments has the same texts, with a gap in the place of each
comment (`CssResources.CommentedText.stripComments_written`). A gap is the line breaks of the
comment and a space: it is blank, and never empty. That is why nothing grows together over it.

| what could grow together | why it does not | theorem |
|---|---|---|
| a slash and a star | a gap begins with neither | `CssResources.not_comment_stripComments` |
| two words | words end at a gap | `CssResources.CommentedText.splitWords_stripped` |
-/

namespace CssResources

/-! ### Gaps -/

/-- **What is put in the place of a comment**: its line breaks, and a space. -/
def commentGap (inside : Text) : Text := lineBreaks inside ++ [' ']

theorem commentGap_ne_nil (inside : Text) : commentGap inside ≠ [] := by
  simp [commentGap]

theorem isAllBlank_commentGap (inside : Text) : isAllBlank (commentGap inside) = true := by
  rw [commentGap, isAllBlank_append, isAllBlank_lineBreaks]
  rfl

/-- **Of a comment its line breaks are left**, as long as it does not end: neither within the text,
nor on the border to what follows. -/
theorem stripCommentsFrom_true_append {inside t : Text} (h : ¬"*/".toList <:+: inside)
    (hborder : t.head? ≠ some '/') :
    stripCommentsFrom true (inside ++ t) = lineBreaks inside ++ stripCommentsFrom true t := by
  induction inside with
  | nil => rfl
  | cons c inside ih =>
    obtain ⟨hc, h⟩ := not_or.mp ((not_congr pair_isInfix_cons_iff).mp h)
    have hgoes : ¬(c = '*' ∧ (inside ++ t).head? = some '/') := by
      rintro ⟨rfl, hhead⟩
      cases inside with
      | nil => exact hborder hhead
      | cons d inside => exact hc ⟨rfl, hhead⟩
    rw [List.cons_append, stripCommentsFrom_true_cons hgoes, ih h, lineBreaks, lineBreaks,
      List.filter_cons]
    by_cases hbreak : c = '\n'
    · rw [if_pos hbreak, if_pos (by simpa using hbreak), hbreak, List.cons_append]
    · rw [if_neg hbreak, if_neg (by simpa using hbreak)]

/-! ### Comments and the texts around them -/

/-- **A text whose comments are told apart from the rest.** -/
inductive CommentedText where
  /-- A text in which no comment begins. -/
  | plain (t : Text) (uncommented : ¬"/*".toList <:+: t)
  /-- A text, and a comment that is open to the end. -/
  | unclosed (lead inside : Text) (uncommented : ¬"/*".toList <:+: lead)
    (unended : ¬"*/".toList <:+: inside)
  /-- A text, a comment, and what follows the comment. -/
  | closed (lead inside : Text) (uncommented : ¬"/*".toList <:+: lead)
    (unended : ¬"*/".toList <:+: inside) (rest : CommentedText)

namespace CommentedText

/-- The text with its comments. -/
def written : CommentedText → Text
  | plain t _ => t
  | unclosed lead inside _ _ => lead ++ '/' :: '*' :: inside
  | closed lead inside _ _ rest => lead ++ '/' :: '*' :: (inside ++ '*' :: '/' :: rest.written)

/-- The text with gaps in the place of its comments. -/
def stripped : CommentedText → Text
  | plain t _ => t
  | unclosed lead inside _ _ => lead ++ commentGap inside
  | closed lead inside _ _ rest => lead ++ (commentGap inside ++ rest.stripped)

/-- The texts in front of the comments, between them and behind them. -/
def pieces : CommentedText → List Text
  | plain t _ => [t]
  | unclosed lead _ _ _ => [lead]
  | closed lead _ _ _ rest => lead :: rest.pieces

/-- **Every text is a row of texts and comments.** -/
theorem exists_written (t : Text) : ∃ s : CommentedText, s.written = t := by
  by_cases hopens : "/*".toList <:+: t
  · obtain ⟨lead, u, ht, hlead⟩ := exists_eq_append_pair (a := '/') (b := '*') hopens
    by_cases hends : "*/".toList <:+: u
    · obtain ⟨inside, rest, hu, hinside⟩ := exists_eq_append_pair (a := '*') (b := '/') hends
      obtain ⟨s, hs⟩ := exists_written rest
      exact ⟨closed lead inside hlead hinside s, by rw [written, hs, ht, hu]⟩
    · exact ⟨unclosed lead u hlead hends, ht.symm⟩
  · exact ⟨plain t hopens, rfl⟩
termination_by t.length
decreasing_by
  rw [ht, hu]
  simp only [List.length_append, List.length_cons]
  omega

/-- **It is one in one way only**, since the first mark of a comment is where it is. -/
theorem written_injective : Function.Injective written := by
  have hplain {t : Text} (h : ¬"/*".toList <:+: t) (lead u : Text) : t ≠ lead ++ '/' :: '*' :: u :=
    fun heq => h (heq ▸ pair_isInfix '/' '*' lead u)
  have hopen {t : Text} (h : ¬"*/".toList <:+: t) (inside u : Text) :
      t ≠ inside ++ '*' :: '/' :: u := fun heq => h (heq ▸ pair_isInfix '*' '/' inside u)
  intro s
  induction s with
  | plain t ht =>
    intro s' h
    cases s' with
    | plain t' =>
      obtain rfl : t = t' := h
      rfl
    | unclosed lead' inside' => exact absurd h (hplain ht lead' _)
    | closed lead' inside' => exact absurd h (hplain ht lead' _)
  | unclosed lead inside hlead hinside =>
    intro s' h
    cases s' with
    | plain t' ht' => exact absurd h.symm (hplain ht' lead _)
    | unclosed lead' inside' hlead' =>
      obtain ⟨rfl, rfl⟩ := eq_of_append_pair (by decide) hlead hlead' h
      rfl
    | closed lead' inside' hlead' =>
      obtain ⟨-, hafter⟩ := eq_of_append_pair (by decide) hlead hlead' h
      exact absurd hafter (hopen hinside inside' _)
  | closed lead inside hlead hinside rest ih =>
    intro s' h
    cases s' with
    | plain t' ht' => exact absurd h.symm (hplain ht' lead _)
    | unclosed lead' inside' hlead' hinside' =>
      obtain ⟨-, hafter⟩ := eq_of_append_pair (by decide) hlead hlead' h
      exact absurd hafter.symm (hopen hinside' inside _)
    | closed lead' inside' hlead' hinside' rest' =>
      obtain ⟨rfl, hafter⟩ := eq_of_append_pair (by decide) hlead hlead' h
      obtain ⟨rfl, hrest⟩ :=
        eq_of_append_pair (a := '*') (b := '/') (by decide) hinside hinside' hafter
      rw [ih hrest]

/-! ### Gaps in the place of comments -/

/-- **What is left of a text without its comments has a gap in the place of each of them.** -/
theorem stripComments_written (s : CommentedText) : stripComments s.written = s.stripped := by
  have hopens {lead : Text} (h : ¬"/*".toList <:+: lead) (t : Text) :
      stripComments (lead ++ '/' :: '*' :: t) = lead ++ stripCommentsFrom true t :=
    stripComments_append h (.inr (by simp))
  induction s with
  | plain t ht => exact stripComments_of_not_comment ht
  | unclosed lead inside hlead hinside =>
    have hgap := stripCommentsFrom_true_append (t := []) hinside (by simp)
    rw [List.append_nil] at hgap
    rw [written, hopens hlead, hgap]
    rfl
  | closed lead inside hlead hinside rest ih =>
    have hgap := stripCommentsFrom_true_append (t := '*' :: '/' :: rest.written) hinside (by simp)
    have hends : stripCommentsFrom true ('*' :: '/' :: rest.written) = ' ' :: rest.stripped :=
      congrArg (' ' :: ·) ih
    rw [written, hopens hlead, hgap, hends, stripped, commentGap, List.append_assoc,
      List.singleton_append]

/-- **Words end at gaps**: those of the whole text are those of its pieces. -/
theorem splitWords_stripped (s : CommentedText) :
    splitWords isBlank s.stripped = s.pieces.flatMap (splitWords isBlank) := by
  have hgap (inside lead t : Text) : splitWords isBlank (lead ++ (commentGap inside ++ t)) =
      splitWords isBlank lead ++ splitWords isBlank t :=
    splitWords_append_separators (fun _ => isBlank_of_mem_isAllBlank (isAllBlank_commentGap inside))
      (commentGap_ne_nil inside) lead t
  induction s with
  | plain t ht => rw [stripped, pieces, List.flatMap_singleton]
  | unclosed lead inside hlead hinside =>
    have hend := hgap inside lead []
    rw [List.append_nil] at hend
    rw [stripped, hend, pieces, List.flatMap_singleton]
    exact List.append_nil _
  | closed lead inside hlead hinside rest ih =>
    rw [stripped, hgap, ih, pieces, List.flatMap_cons]

end CommentedText

/-! ### Removing comments -/

/-- **Comments become gaps.** No comment begins in what is left of a source without its comments. It
has as many line breaks as the source, and it is the source itself exactly if no comment begins in
this; so nothing changes when comments are removed once more. The source is a row of texts and
comments in exactly one way, and what is left of it has these texts, with a gap in the place of each
comment. Its words are their words, in their order: **none grows together over a comment**. -/
theorem comments_become_gaps (source : Text) :
    ¬"/*".toList <:+: stripComments source ∧
      newlines (stripComments source) = newlines source ∧
      (stripComments source = source ↔ ¬"/*".toList <:+: source) ∧
      stripComments (stripComments source) = stripComments source ∧
      ∃ s : CommentedText,
        (∀ s' : CommentedText, s'.written = source ↔ s' = s) ∧
          stripComments source = s.stripped ∧
          splitWords isBlank (stripComments source) = s.pieces.flatMap (splitWords isBlank) := by
  have hnone := not_comment_stripComments source
  obtain ⟨s, rfl⟩ := CommentedText.exists_written source
  have hstripped := s.stripComments_written
  refine ⟨hnone, newlines_stripComments _, ⟨fun h => h ▸ hnone, stripComments_of_not_comment⟩,
    stripComments_of_not_comment hnone, s, fun s' => CommentedText.written_injective.eq_iff,
    hstripped, ?_⟩
  rw [hstripped]
  exact s.splitWords_stripped

/-- A slash and a star stay apart, and the last comment is open. -/
example : stripComments "a//* b\n */*c/*/d".toList = "a/\n *c ".toList := by decide

end CssResources
