import CssResources.Proofs.Stylesheet.Concatenation
import CssResources.Proofs.Stylesheet.LooseDeclarations

/-!
# Rules nested in a block are dropped

A rule that stands in the block of another one (`CssResources.NestedRule`) is dropped: the
declarations around it are read as if it were not there, so are the rules after the block, and one
report has the text in front of its block (`CssResources.ofText_nestedRule`).

The text of a block is read twice, by scanners that keep count of different things. Only the
second one minds quotes and parentheses around a semicolon.

| scanner | begins anew after | goes through a row of declarations by |
|---|---|---|
| `CssResources.dropNested` | every semicolon | `CssResources.IsRow.dropNested_append` |
| `CssResources.bodySegments` | one that is not enclosed | `CssResources.IsRow.exists_declarationsOf_append` |

A nested rule has to begin where both of them do: at the start of the block or after the semicolon
of a declaration, blanks apart (`CssResources.EndsDeclaration`). Its own text is seen by the first
scanner only. A semicolon in it, also one in quotes, cuts it in two, and what is left of it opens
a quote for the second scanner, in which the declarations after it are lost
(`CssResources.content_listRule_ne`).
-/

namespace CssResources

/-! ### Nested rules as they are written -/

/-- **A rule nested in a block, as it is written.** -/
structure NestedRule where
  /-- The text in front of its block. -/
  prelude : Text
  /-- The inside of its block. -/
  inside : Text

namespace NestedRule

/-- The text of a nested rule. -/
def written (n : NestedRule) : Text := n.prelude ++ '{' :: (n.inside ++ ['}'])

/-- A nested rule without its comments. -/
def stripped (n : NestedRule) : NestedRule := ⟨stripComments n.prelude, stripComments n.inside⟩

/-- **A nested rule that closes what it opens.** -/
structure IsClosed (n : NestedRule) : Prop where
  /-- Its prelude closes its quotes, and has braces in them only. -/
  prelude : StaysInBlock n.prelude
  /-- Its prelude is not blank. -/
  notBlank : isAllBlank n.prelude = false
  /-- Its block closes what it opens. -/
  inside : ClosesBlocks n.inside

variable {n : NestedRule}

theorem IsClosed.closesBlocks (h : n.IsClosed) : ClosesBlocks n.written :=
  h.prelude.closesBlocks.append h.inside.inBraces

end NestedRule

/-! ### Nested rules after semicolons -/

/-- The first character that a text may be cut before is where it is cut. -/
theorem cutSegment_append_cons {quote : Option Char} {s : Text} {c : Char} (hs : ';' ∉ s)
    (hopen : '{' ∉ unquoted quote s) (hc : c = ';' ∨ (quoteAtEnd quote s = none ∧ c = '{'))
    (t : Text) : cutSegment quote (s ++ c :: t) = (s, quoteAtEnd quote s, c :: t) := by
  induction s generalizing quote with
  | nil => exact if_pos hc
  | cons x s ih =>
    rw [List.mem_cons, not_or] at hs
    have hx : ¬(x = ';' ∨ (quote = none ∧ x = '{')) := by
      rintro (rfl | ⟨rfl, rfl⟩)
      · exact hs.1 rfl
      · exact hopen (List.mem_cons_self ..)
    have hrest : '{' ∉ unquoted (quoteAfter quote x) s := fun hmem =>
      hopen (mem_unquoted_cons_of_mem hmem)
    rw [List.cons_append, cutSegment, if_neg hx, ih hs.2 hrest hc, quoteAtEnd_cons]

/-- **What comes before a semicolon is kept**, if it opens no block. -/
theorem dropNested_append_semicolon {quote : Option Char} {s : Text} (hquote : quote ≠ some ';')
    (hopen : '{' ∉ unquoted quote s) (line : Nat) (t : Text) :
    dropNested line quote (s ++ ';' :: t) =
      (s ++ ';' :: (dropNested (line + newlines s) (quoteAtEnd quote s) t).1,
        (dropNested (line + newlines s) (quoteAtEnd quote s) t).2) := by
  induction hlength : s.length using Nat.strongRecOn generalizing s quote line with
  | ind length ih =>
    subst hlength
    by_cases hs : ';' ∈ s
    · -- the first semicolon of the text comes before the one after it
      obtain ⟨u, v, rfl, hu⟩ := List.eq_append_cons_of_mem hs
      rw [unquoted_append, List.mem_append, not_or] at hopen
      have hquote' : quoteAtEnd quote u ≠ some ';' :=
        quoteAtEnd_ne_some hquote (by decide) (by decide) u
      have hrest : '{' ∉ unquoted (quoteAtEnd quote u) v := fun hmem =>
        hopen.2 (mem_unquoted_cons_of_mem (by rwa [quoteAfter_semicolon hquote']))
      have hcut := cutSegment_append_cons hu hopen.1 (Or.inl rfl) (v ++ ';' :: t)
      have hshorter : v.length < (u ++ ';' :: v).length := by
        rw [List.length_append, List.length_cons]
        omega
      have hlines : newlines (u ++ ';' :: v) = newlines u + newlines v := by
        rw [newlines_append, newlines_cons_of_ne (by decide)]
      have hend : quoteAtEnd quote (u ++ ';' :: v) = quoteAtEnd (quoteAtEnd quote u) v := by
        rw [quoteAtEnd_append, quoteAtEnd_cons, quoteAfter_semicolon hquote']
      rw [List.append_assoc, List.cons_append, dropNested_semicolon line hcut,
        ih v.length hshorter hquote' hrest (line + newlines u) rfl, hlines, hend, ← Nat.add_assoc,
        List.append_assoc, List.cons_append]
    · exact dropNested_semicolon line (cutSegment_append_cons hs hopen (Or.inl rfl) t)

/-! ### Rows of declarations -/

/-- **A row of declarations**, each with its semicolon: the text is empty, or ends with a semicolon
outside quotes and parentheses. -/
inductive IsRow : Text → Prop where
  /-- No declaration. -/
  | nil : IsRow []
  /-- Declarations up to a semicolon. -/
  | snoc {t : Text} (stays : StaysInBlock t)
    (parens : Brackets.parens.IsBalanced (unquoted none t)) : IsRow (t ++ [';'])

/-- **A text after which a declaration may begin**: it is a row of declarations and blanks. -/
structure EndsDeclaration (t : Text) : Prop extends StaysInBlock t where
  /-- Its parentheses are balanced. -/
  parens : Brackets.parens.IsBalanced (unquoted none t)
  /-- It is blank, or its last character that is not blank is a semicolon. -/
  last : isAllBlank t = true ∨ (trimEnd t).getLast? = some ';'

section Row

variable {s t : Text}

namespace IsRow

theorem staysInBlock (h : IsRow s) : StaysInBlock s := by
  cases h with
  | nil => exact ⟨rfl, by simp, by simp⟩
  | snoc stays parens => exact stays.append staysInBlock_semicolon

theorem isBalanced (h : IsRow s) : Brackets.parens.IsBalanced (unquoted none s) := by
  cases h with
  | nil => rfl
  | snoc stays parens =>
    rw [unquoted_append, stays.quotes]
    exact parens.append rfl

/-- **Nested rules are dropped after a row of declarations as at the start of the block.** -/
theorem dropNested_append (h : IsRow s) (line : Nat) (t : Text) :
    dropNested line none (s ++ t) =
      (s ++ (dropNested (line + newlines s) none t).1,
        (dropNested (line + newlines s) none t).2) := by
  cases h with
  | nil => rfl
  | @snoc s stays parens =>
    have hlines : newlines (s ++ [';']) = newlines s := newlines_append s [';']
    rw [List.append_assoc, List.singleton_append,
      dropNested_append_semicolon (by simp) stays.opening, stays.quotes, hlines, List.append_assoc,
      List.singleton_append]

/-- **Declarations begin anew after a row of declarations.** -/
theorem exists_declarationsOf_append (h : IsRow s) (line : Nat) :
    ∃ ds, ∀ t, declarationsOf line (s ++ t) = ds ++ declarationsOf (line + newlines s) t := by
  cases h with
  | nil => exact ⟨[], fun t => rfl⟩
  | @snoc s stays parens =>
    refine ⟨declarationsOf line s, fun t => ?_⟩
    have hlines : newlines (s ++ [';']) = newlines s := newlines_append s [';']
    rw [declarationsOf, List.append_assoc, List.singleton_append,
      bodySegments_append_semicolon stays.quotes parens, segmentDeclarations_append,
      sum_newlines_bodySegments, hlines, declarationsOf, declarationsOf]

end IsRow

namespace EndsDeclaration

/-- **A text after which a declaration may begin is a row of declarations and blanks.** -/
theorem exists_row (h : EndsDeclaration t) :
    ∃ row blanks, IsRow row ∧ isAllBlank blanks = true ∧ t = row ++ blanks := by
  rcases h.last with hblank | hlast
  · exact ⟨[], t, .nil, hblank, rfl⟩
  · obtain ⟨blanks, hblanks, ht⟩ := exists_eq_trimEnd_append t
    obtain ⟨u, hu⟩ := List.getLast?_eq_some_iff.mp hlast
    rw [hu, List.append_assoc] at ht
    have hnot {c : Char} (hc : isBlank c = false) (hne : c ≠ ';') : c ∉ [';'] ++ blanks := by
      rw [List.mem_append, List.mem_singleton, not_or]
      exact ⟨hne, not_mem_of_isAllBlank hblanks hc⟩
    have hquotes : quoteAtEnd none u = none :=
      quoteAtEnd_eq_none_of_append (ht ▸ h.quotes) (hnot (by decide) (by decide))
        (hnot (by decide) (by decide))
    have hunquoted : unquoted none t = unquoted none u ++ unquoted none ([';'] ++ blanks) := by
      rw [ht, unquoted_append, hquotes]
    have hinside {c : Char} (hc : c ∉ unquoted none t) : c ∉ unquoted none u := fun hmem =>
      hc (hunquoted ▸ List.mem_append_left _ hmem)
    -- what follows leaves the number of open parentheses as it is
    have houtside {c : Char} (hc : c ∉ [';'] ++ blanks) : c ∉ unquoted none ([';'] ++ blanks) :=
      fun hmem => hc ((unquoted_sublist none _).subset hmem)
    have hparens : Brackets.parens.IsBalanced (unquoted none u) :=
      Brackets.IsBalanced.of_append (hunquoted ▸ h.parens)
        (Brackets.not_mem_of_pair (houtside (hnot (by decide) (by decide)))
          (houtside (hnot (by decide) (by decide))))
    refine ⟨u ++ [';'], blanks, .snoc ⟨hquotes, hinside h.opening, hinside h.closing⟩ hparens,
      hblanks, ?_⟩
    rw [ht, List.append_assoc]

/-- No slash is left at the end for a star to follow. -/
theorem getLast?_ne_slash (h : EndsDeclaration t) : t.getLast? ≠ some '/' := by
  rcases h.last with hblank | hlast
  · exact fun hslash => not_mem_of_isAllBlank hblank (by decide) (List.mem_of_getLast? hslash)
  · obtain ⟨blanks, hblanks, ht⟩ := exists_eq_trimEnd_append t
    rw [ht]
    exact getLast?_append_blank_ne (by decide) hblanks (by simp [hlast])

end EndsDeclaration

/-! ### The block of a nested rule -/

section Gap

variable {gap gap' : Text}

/-- **Blanks in front of declarations move them down.** -/
theorem declarationsOf_blank_append (h : isAllBlank gap = true) (line : Nat) (t : Text) :
    declarationsOf line (gap ++ t) = declarationsOf (line + newlines gap) t := by
  obtain ⟨s, ss, hs⟩ := List.exists_cons_of_ne_nil (bodySegments_ne_nil 0 none t)
  have hfirst : segmentDeclaration? line (gap ++ s) =
      segmentDeclaration? (line + newlines gap) s := by
    rw [segmentDeclaration?, segmentDeclaration?, ← lineOf, ← lineOf, lineOf_blank_append h,
      ← ofText?_trim, trim_blank_append h, ofText?_trim]
  rw [declarationsOf, declarationsOf, (isSegment_of_isAllBlank h).bodySegments_append, hs,
    foldr_consHead, segmentDeclarations, segmentDeclarations, hfirst, newlines_append,
    Nat.add_assoc]

/-- **Which blanks stand after a row of declarations does not matter**, up to lines. -/
theorem IsRow.map_noLine_declarationsOf (hs : IsRow s) (hgap : isAllBlank gap = true)
    (hgap' : isAllBlank gap' = true) (line : Nat) (t : Text) :
    (declarationsOf line (s ++ (gap ++ t))).map (Declaration.mapLine noLine) =
      (declarationsOf line (s ++ (gap' ++ t))).map (Declaration.mapLine noLine) := by
  obtain ⟨ds, hds⟩ := hs.exists_declarationsOf_append line
  have hmoved (k : Nat) : (declarationsOf k t).map (Declaration.mapLine noLine) =
      (bodySegments 0 none t).filterMap (Declaration.ofText? 0) :=
    map_noLine_segmentDeclarations k _
  rw [hds, hds, declarationsOf_blank_append hgap, declarationsOf_blank_append hgap',
    List.map_append, List.map_append, hmoved, hmoved]

end Gap

end Row

namespace NestedRule

variable {n : NestedRule} {b₁ b₂ : Text}

/-- The line breaks of a nested rule are those of its parts. -/
theorem newlines_written (n : NestedRule) :
    newlines n.written = newlines n.prelude + newlines n.inside := by
  rw [written, newlines_append, newlines_cons_of_ne (by decide), newlines_append,
    newlines_cons_of_ne (by decide), newlines_nil, Nat.add_zero]

/-- **A nested rule leaves its line breaks and its report**, whatever comes after it. -/
theorem IsClosed.dropNested_append (hn : n.IsClosed) (hsemicolon : ';' ∉ n.prelude) (line : Nat)
    (t : Text) :
    dropNested line none (n.written ++ t) =
      (lineBreaks n.prelude ++ lineBreaks n.inside
          ++ (dropNested (line + newlines n.written) none t).1,
        .unsupportedSelector (line + newlines n.prelude) (trim n.prelude) "nested rule".toList ::
          (dropNested (line + newlines n.written) none t).2) := by
  have hwritten : n.written ++ t = n.prelude ++ '{' :: (n.inside ++ '}' :: t) := by
    simp [written]
  have hcut := cutSegment_append_cons hsemicolon hn.prelude.opening
    (Or.inr ⟨hn.prelude.quotes, rfl⟩) (n.inside ++ '}' :: t)
  have hreport (line : Nat) : nestedRule? line n.prelude =
      some (.unsupportedSelector line (trim n.prelude) "nested rule".toList) := by
    rw [nestedRule?, hn.notBlank, if_neg (by simp)]
  rw [hwritten, dropNested_block _ hcut, hn.inside.splitBlock_append, hreport, newlines_written,
    Nat.add_assoc]
  rfl

/-- Blanks in front of a nested rule may be counted among its prelude. -/
theorem IsClosed.blank_append {blanks : Text} (hblanks : isAllBlank blanks = true)
    (hn : n.IsClosed) : (NestedRule.mk (blanks ++ n.prelude) n.inside).IsClosed where
  prelude := (isSegment_of_isAllBlank hblanks).toStaysInBlock.append hn.prelude
  notBlank := by rw [isAllBlank_append, hn.notBlank, Bool.and_false]
  inside := hn.inside

/-- **A nested rule is dropped up to blanks**: what is left of the block are the declarations in
front of it and behind it. -/
theorem IsClosed.exists_dropNested (hn : n.IsClosed) (hsemicolon : ';' ∉ n.prelude)
    (h₁ : EndsDeclaration b₁) (h₂ : StaysInBlock b₂) (line : Nat) :
    ∃ row blanks gap, IsRow row ∧ isAllBlank blanks = true ∧ isAllBlank gap = true ∧
      b₁ = row ++ blanks ∧
      dropNested line none (b₁ ++ (n.written ++ b₂)) =
        (row ++ (gap ++ b₂), [.unsupportedSelector (line + newlines (b₁ ++ n.prelude))
          (trim n.prelude) "nested rule".toList]) := by
  obtain ⟨row, blanks, hrow, hblanks, rfl⟩ := h₁.exists_row
  have hnot : ';' ∉ blanks ++ n.prelude := by
    rw [List.mem_append, not_or]
    exact ⟨not_mem_of_isAllBlank hblanks (by decide), hsemicolon⟩
  have hwritten : (row ++ blanks) ++ (n.written ++ b₂) =
      row ++ ((NestedRule.mk (blanks ++ n.prelude) n.inside).written ++ b₂) := by
    simp [written]
  have hlines : line + newlines row + newlines (blanks ++ n.prelude) =
      line + newlines (row ++ blanks ++ n.prelude) := by
    rw [List.append_assoc row, newlines_append row, Nat.add_assoc]
  refine ⟨row, blanks, lineBreaks (blanks ++ n.prelude) ++ lineBreaks n.inside, hrow, hblanks, ?_,
    rfl, ?_⟩
  · rw [isAllBlank_append, isAllBlank_lineBreaks, isAllBlank_lineBreaks]
    rfl
  · rw [hwritten, hrow.dropNested_append, (hn.blank_append hblanks).dropNested_append hnot,
      h₂.dropNested_eq, trim_blank_append hblanks, hlines]

/-- **The declarations of a block are those of the block without the nested rule**, up to lines,
and the nested rule is reported. -/
theorem IsClosed.map_noLine_declarationsOf (hn : n.IsClosed) (hsemicolon : ';' ∉ n.prelude)
    (h₁ : EndsDeclaration b₁) (h₂ : StaysInBlock b₂) (line : Nat) :
    let read := dropNested line none (b₁ ++ (n.written ++ b₂))
    let plain := dropNested line none (b₁ ++ b₂)
    (declarationsOf line read.1).map (Declaration.mapLine noLine) =
        (declarationsOf line plain.1).map (Declaration.mapLine noLine) ∧
      read.2 = [.unsupportedSelector (line + newlines (b₁ ++ n.prelude)) (trim n.prelude)
        "nested rule".toList] ∧
      plain.2 = [] := by
  obtain ⟨row, blanks, gap, hrow, hblanks, hgap, hb₁, hread⟩ :=
    hn.exists_dropNested hsemicolon h₁ h₂ line
  have hplain : dropNested line none (b₁ ++ b₂) = (b₁ ++ b₂, []) :=
    (h₁.toStaysInBlock.append h₂).dropNested_eq line
  have hrest := hrow.map_noLine_declarationsOf hgap hblanks line b₂
  rw [← List.append_assoc row blanks, ← hb₁] at hrest
  rw [hread, hplain]
  exact ⟨hrest, rfl, rfl⟩

theorem newlines_written_stripped (n : NestedRule) :
    newlines n.stripped.written = newlines n.written := by
  rw [newlines_written, newlines_written, stripped, newlines_stripComments, newlines_stripComments]

/-- The comments of a nested rule can be removed from each of its parts. -/
theorem stripComments_written (hprelude : endsInComment false n.prelude = false)
    (hinside : endsInComment false n.inside = false) (t : Text) :
    stripComments (n.written ++ t) = n.stripped.written ++ stripComments t := by
  have hwritten : n.written ++ t = n.prelude ++ '{' :: (n.inside ++ '}' :: t) := by
    simp [written]
  rw [hwritten, stripComments_append_cons hprelude (by decide) (by decide),
    stripComments_append_cons hinside (by decide) (by decide)]
  simp [written, stripped]

end NestedRule

/-! ### The theorem -/

/-- **Blocks with the same head and, up to lines, the same declarations are the same rule.** -/
theorem Fragment.map_noLine_rules_block {body body' : Text} {line bodyLine : Nat} (head : Text)
    (h : (declarationsOf bodyLine (dropNested bodyLine none body).1).map
        (Declaration.mapLine noLine) =
      (declarationsOf bodyLine (dropNested bodyLine none body').1).map
        (Declaration.mapLine noLine)) :
    (Fragment.block line head bodyLine body).rules.map (Rule.mapLine noLine) =
      (Fragment.block line head bodyLine body').rules.map (Rule.mapLine noLine) := by
  rw [Fragment.rules, Fragment.rules]
  split
  · rfl
  · split
    · rfl
    · rw [List.map_singleton, List.map_singleton, Rule.mapLine, Rule.mapLine, h]

/-- **A head and a block are one fragment** also with the comments, if these can be removed from
the block. -/
theorem fragmentsOf_block {head inside body : Text} (hcomment : endsInComment false head = false)
    (hhead : ∀ c ∈ stripComments head, endsFragment c = false) (hbody : ClosesBlocks body)
    (hinside : ∀ t, stripComments (inside ++ '}' :: t) = body ++ '}' :: stripComments t)
    (rest : Text) :
    let lead := stripComments head
    Stylesheet.fragmentsOf (head ++ '{' :: (inside ++ '}' :: rest)) =
      .block (lineOf 1 lead) (trim lead) (1 + newlines lead) body ::
        fragments (1 + newlines lead + newlines body) (stripComments rest) := by
  rw [Stylesheet.fragmentsOf, stripComments_append_cons hcomment (by decide) (by decide), hinside,
    fragments_block hhead hbody]

section Theorem

variable {head b₁ b₂ : Text} {n : NestedRule}
  (hcomments : ∀ t ∈ [head, b₁, n.prelude, n.inside, b₂], endsInComment false t = false)
  (hhead : ∀ c ∈ stripComments head, endsFragment c = false)
  (hat : isAtRule (trim (stripComments head)) = false)
  (h₁ : EndsDeclaration (stripComments b₁)) (h₂ : StaysInBlock (stripComments b₂))
  (hn : n.stripped.IsClosed) (hsemicolon : ';' ∉ stripComments n.prelude)
include hcomments hhead hat h₁ h₂ hn hsemicolon

/-- A nested rule in the first block of a text is dropped. -/
theorem fragmentsOf_nestedRule (rest : Text) :
    let read := Stylesheet.fragmentsOf (head ++ '{' :: (b₁ ++ (n.written ++ (b₂ ++ '}' :: rest))))
    let plain := Stylesheet.fragmentsOf (head ++ '{' :: (b₁ ++ (b₂ ++ '}' :: rest)))
    (read.flatMap Fragment.rules).map (Rule.mapLine noLine) =
        (plain.flatMap Fragment.rules).map (Rule.mapLine noLine) ∧
      read.flatMap Fragment.diagnostics =
        .unsupportedSelector (1 + newlines (head ++ '{' :: (b₁ ++ n.prelude)))
            (trim (stripComments n.prelude)) "nested rule".toList ::
          (plain.flatMap Fragment.diagnostics).map
            (Diagnostic.mapLine (· + newlines n.written)) := by
  dsimp only
  have hstrip₁ (t : Text) : stripComments (b₁ ++ t) = stripComments b₁ ++ stripComments t :=
    stripCommentsFrom_append (hcomments b₁ (by simp)) (Or.inl h₁.getLast?_ne_slash)
  have hstrip₂ (t : Text) :
      stripComments (b₂ ++ '}' :: t) = stripComments b₂ ++ '}' :: stripComments t :=
    stripComments_append_cons (hcomments b₂ (by simp)) (by decide) (by decide) t
  have hstrip (t : Text) : stripComments (n.written ++ t) = n.stripped.written ++ stripComments t :=
    NestedRule.stripComments_written (hcomments n.prelude (by simp))
      (hcomments n.inside (by simp)) t
  -- the block with the nested rule, and the one without it
  have hwith (t : Text) : stripComments ((b₁ ++ (n.written ++ b₂)) ++ '}' :: t) =
      (stripComments b₁ ++ (n.stripped.written ++ stripComments b₂)) ++ '}' :: stripComments t := by
    simp only [List.append_assoc, hstrip₁, hstrip, hstrip₂]
  have hwithout (t : Text) : stripComments ((b₁ ++ b₂) ++ '}' :: t) =
      (stripComments b₁ ++ stripComments b₂) ++ '}' :: stripComments t := by
    simp only [List.append_assoc, hstrip₁, hstrip₂]
  have hread := fragmentsOf_block (hcomments head (by simp)) hhead
    (h₁.closesBlocks.append (hn.closesBlocks.append h₂.closesBlocks)) hwith rest
  have hplain := fragmentsOf_block (hcomments head (by simp)) hhead
    (h₁.toStaysInBlock.append h₂).closesBlocks hwithout rest
  have hlines : newlines (stripComments b₁ ++ (n.stripped.written ++ stripComments b₂)) =
      newlines (stripComments b₁ ++ stripComments b₂) + newlines n.written := by
    rw [newlines_append, newlines_append, newlines_append, n.newlines_written_stripped]
    omega
  simp only [List.append_assoc] at hread hplain
  obtain ⟨hdeclarations, hreport, hnone⟩ := hn.map_noLine_declarationsOf hsemicolon h₁ h₂
    (1 + newlines (stripComments head))
  have hopen : newlines ('{' :: (b₁ ++ n.prelude)) = newlines b₁ + newlines n.prelude := by
    rw [newlines_cons_of_ne (by decide), newlines_append]
  have hprelude : n.stripped.prelude = stripComments n.prelude := rfl
  have hreportLine : 1 + newlines (stripComments head)
      + newlines (stripComments b₁ ++ n.stripped.prelude) =
      1 + newlines (head ++ '{' :: (b₁ ++ n.prelude)) := by
    rw [newlines_append, newlines_append head, hopen, hprelude, newlines_stripComments,
      newlines_stripComments, newlines_stripComments, Nat.add_assoc]
  rw [hread, hplain, hlines, ← Nat.add_assoc]
  simp only [List.flatMap_cons, List.map_append, flatMap_rules_fragments_add,
    flatMap_diagnostics_fragments_add, Rule.map_noLine_map_mapLine]
  constructor
  · rw [Fragment.map_noLine_rules_block _ hdeclarations]
  · rw [Fragment.diagnostics, Fragment.diagnostics, hat, hreport, hnone, hreportLine]
    rfl

/-- **A nested rule is dropped.** Where it stands in a block, after the semicolon of a declaration
or first of all, a stylesheet gives the same rules as without it, up to lines. The reports are the
same too, those after it so many lines further down, up to that of the nested rule, which has its
prelude and stands at the line of its block. -/
theorem ofText_nestedRule (s rest : Text) (hs : EndsAtTop s) :
    let before := s ++ (head ++ '{' :: b₁)
    let after := b₂ ++ '}' :: rest
    let read := Stylesheet.ofText (before ++ (n.written ++ after))
    let plain := Stylesheet.ofText (before ++ after)
    read.rules.map (Rule.mapLine noLine) = plain.rules.map (Rule.mapLine noLine) ∧
      ∃ reports reports', plain.diagnostics = reports ++ reports' ∧
        read.diagnostics = reports
          ++ .unsupportedSelector (1 + newlines (before ++ n.prelude))
              (trim (stripComments n.prelude)) "nested rule".toList ::
            reports'.map (Diagnostic.mapLine (· + newlines n.written)) := by
  intro before after read plain
  obtain ⟨hrules, hdiagnostics⟩ :=
    fragmentsOf_nestedRule hcomments hhead hat h₁ h₂ hn hsemicolon rest
  obtain ⟨hreadRules, hreadReports⟩ := hs.fragmentsOf_append
    (head ++ '{' :: (b₁ ++ (n.written ++ (b₂ ++ '}' :: rest))))
  obtain ⟨hplainRules, hplainReports⟩ := hs.fragmentsOf_append
    (head ++ '{' :: (b₁ ++ (b₂ ++ '}' :: rest)))
  have hread : read = Stylesheet.ofText
      (s ++ (head ++ '{' :: (b₁ ++ (n.written ++ (b₂ ++ '}' :: rest))))) := by
    simp [read, before, after]
  have hplain : plain = Stylesheet.ofText (s ++ (head ++ '{' :: (b₁ ++ (b₂ ++ '}' :: rest)))) := by
    simp [plain, before, after]
  rw [hread, hplain]
  constructor
  · simp only [Stylesheet.ofText]
    rw [← Rule.mergeLoose_map_mapLine, ← Rule.mergeLoose_map_mapLine, hreadRules, hplainRules,
      List.map_append, List.map_append, Rule.map_noLine_map_mapLine, Rule.map_noLine_map_mapLine,
      hrules]
  · refine ⟨_, _, hplainReports, ?_⟩
    have hline : 1 + newlines (before ++ n.prelude) =
        1 + newlines (head ++ '{' :: (b₁ ++ n.prelude)) + newlines s := by
      simp only [before, List.append_assoc, List.cons_append, newlines_append s]
      omega
    have hmoves (d : Diagnostic) :
        (d.mapLine (· + newlines n.written)).mapLine (· + newlines s) =
          (d.mapLine (· + newlines s)).mapLine (· + newlines n.written) := by
      rw [Diagnostic.mapLine_mapLine, Diagnostic.mapLine_mapLine]
      refine congrArg d.mapLine (funext fun line => ?_)
      exact Nat.add_right_comm line _ _
    refine hreadReports.trans (congrArg _ ?_)
    rw [hdiagnostics, List.map_cons, List.map_map, List.map_map, hline]
    exact congrArg _ (List.map_congr_left fun d _ => hmoves d)

end Theorem

/-- A nested rule with a brace in quotes, and a rule nested in it. -/
def hoverRule : NestedRule :=
  ⟨"/* b */ &[title='\x7d']:hover\n".toList, " top: 0; p \x7b\x7d ".toList⟩

theorem ofText_nestedRule_hover :
    let before := "--x: 1; ".toList ++ (".a ".toList ++ '{' :: " color: red;\n".toList)
    let after := " width: 1px ".toList ++ '}' :: " --y: 2".toList
    hoverRule.stripped.IsClosed ∧
      (Stylesheet.ofText (before ++ (hoverRule.written ++ after))).rules.map (Rule.mapLine noLine) =
        (Stylesheet.ofText (before ++ after)).rules.map (Rule.mapLine noLine) := by
  have hhover : hoverRule.stripped.IsClosed :=
    ⟨⟨by decide, by decide, by decide⟩, by decide, ⟨by decide, by decide⟩⟩
  have hbefore : EndsDeclaration (stripComments " color: red;\n".toList) :=
    ⟨⟨by decide, by decide, by decide⟩, by decide, by decide⟩
  have hafter : StaysInBlock (stripComments " width: 1px ".toList) :=
    ⟨by decide, by decide, by decide⟩
  have hcomments : ∀ t ∈ [".a ".toList, " color: red;\n".toList, hoverRule.prelude,
      hoverRule.inside, " width: 1px ".toList], endsInComment false t = false := by decide
  have hhead : ∀ c ∈ stripComments ".a ".toList, endsFragment c = false := by
    have hstrip : stripComments ".a ".toList = ".a ".toList := by decide
    rw [hstrip]
    simp [endsFragment]
  exact ⟨hhover, (ofText_nestedRule hcomments hhead (by decide) hbefore hafter hhover
    (by decide) "--x: 1; ".toList " --y: 2".toList (by decide)).1⟩

/-- A nested rule with a semicolon in quotes. -/
def listRule : NestedRule := ⟨"&[title=\";\"] ".toList, " top: 0 ".toList⟩

/-- **A semicolon in quotes cuts a nested rule in two.** The nested rule is closed, and the
semicolon stands inside its quotes only; the declaration after it is lost, and it is reported
without its beginning. -/
theorem content_listRule_ne :
    let before := ".a \x7b color: red; ".toList
    let after := " width: 1px; \x7d".toList
    let read := Stylesheet.ofText (before ++ (listRule.written ++ after))
    let plain := Stylesheet.ofText (before ++ after)
    (EndsDeclaration " color: red; ".toList ∧ StaysInBlock " width: 1px; ".toList ∧
        listRule.IsClosed ∧ ';' ∉ unquoted none listRule.prelude ∧
        ¬"/*".toList <:+: before ++ (listRule.written ++ after)) ∧
      read.rules.map Rule.content =
        [([".a".toList], [("color".toList, "red".toList)])] ∧
      plain.rules.map Rule.content =
        [([".a".toList],
          [("color".toList, "red".toList), ("width".toList, "1px".toList)])] ∧
      read.diagnostics = [.unsupportedSelector 1 "\"]".toList "nested rule".toList] ∧
      trim listRule.prelude = "&[title=\";\"]".toList := by
  have hbefore : EndsDeclaration " color: red; ".toList :=
    ⟨⟨by decide, by decide, by decide⟩, by decide, by decide⟩
  have hafter : StaysInBlock " width: 1px; ".toList := ⟨by decide, by decide, by decide⟩
  have hlist : listRule.IsClosed :=
    ⟨⟨by decide, by decide, by decide⟩, by decide, ⟨by decide, by decide⟩⟩
  refine ⟨⟨hbefore, hafter, hlist, by decide, not_comment_of_not_mem (by decide)⟩, ?_, ?_, ?_,
    by decide⟩
  all_goals decide +kernel

end CssResources
