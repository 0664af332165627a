import CssResources.Proofs.Stylesheet.NestedRules
import CssResources.Proofs.Stylesheet.Shape

/-!
# Quoted values

Between quotes a stylesheet may have any text: braces, semicolons, line breaks. In a block every
scanner minds quotes, so a quoted value (`CssResources.IsQuoted`) is read as it is written, and what
stands around it is read as if it were not there (`CssResources.ofText_quotedValue`), only further
down where the quoted text breaks lines. Comments come first, though, and are removed without a look
at quotes: **a value in which a comment would begin is never read**, whatever the stylesheet
(`CssResources.not_comment_of_mem_ofText`). What is read in its place has lost the rest of the
stylesheet, if no other comment ends there (`CssResources.ofText_starIcon`).

The statement compares stylesheets with each other, with one value and with another, and not with
what is meant by their text. So it needs no notion of what stands around a declaration but that it
is the same (`CssResources.BlockPlace.Surroundings`): it holds of any text behind the declaration, also
of one that is malformed, and in front of it asks only that the declaration does begin there
(`CssResources.BlockPlace.TakesDeclaration`).
-/

namespace CssResources

/-! ### Quoted texts -/

/-- **A quoted text**: a quotation mark, a text without it, and the same mark. -/
def IsQuoted (t : Text) : Prop :=
  ∃ mark inside, (mark = '"' ∨ mark = '\'') ∧ mark ∉ inside ∧ t = mark :: (inside ++ [mark])

namespace IsQuoted

variable {t : Text}

/-- **Of a quoted text only its first mark stands outside quotes**, and it closes its quote. -/
theorem exists_unquoted (h : IsQuoted t) :
    ∃ mark, (mark = '"' ∨ mark = '\'') ∧ unquoted none t = [mark] ∧ quoteAtEnd none t = none := by
  obtain ⟨mark, inside, hmark, hinside, rfl⟩ := h
  have hopen : quoteAfter none mark = some mark := by
    rcases hmark with rfl | rfl <;> rfl
  have hstays := quoteAtEnd_some_of_not_mem hinside
  have hclose : quoteAfter (some mark) mark = none := if_pos rfl
  have hhidden : unquoted (some mark) inside = [] := by
    induction inside with
    | nil => rfl
    | cons c inside ih =>
      rw [List.mem_cons, not_or] at hinside
      rw [unquoted_some_cons, quoteAfter_some, if_neg (Ne.symm hinside.1)]
      exact ih hinside.2 (quoteAtEnd_some_of_not_mem hinside.2)
  refine ⟨mark, hmark, ?_, ?_⟩
  · rw [unquoted_none_cons, hopen, unquoted_append, hhidden, hstays, unquoted_some_cons]
    rfl
  · rw [quoteAtEnd_cons, hopen, quoteAtEnd_append, hstays, quoteAtEnd_cons, hclose]
    rfl

/-- **A quoted text stays in its segment**, whatever it quotes. -/
theorem isSegment (h : IsQuoted t) : IsSegment t := by
  obtain ⟨mark, hmark, hunquoted, hquotes⟩ := h.exists_unquoted
  have hnot {c : Char} (hc : c ≠ '"' ∧ c ≠ '\'') : c ∉ unquoted none t := by
    rw [hunquoted, List.mem_singleton]
    rintro rfl
    exact hmark.elim hc.1 hc.2
  refine ⟨⟨hquotes, hnot (by decide), hnot (by decide)⟩, ?_, fun hmem => ?_⟩
  · exact Brackets.depthAtEnd?_of_not_mem
      (Brackets.not_mem_of_pair (hnot (by decide)) (hnot (by decide))) 0
  · exact hnot (by decide) ((Brackets.outside_sublist _ 0 _).subset hmem)

/-- **A quoted text can be written as a value**, unless a comment begins in it. -/
theorem isValueText (h : IsQuoted t) (hcomment : ¬"/*".toList <:+: t) : IsValueText t where
  toIsSegment := h.isSegment
  ne_nil := by
    obtain ⟨mark, inside, -, -, rfl⟩ := h
    exact List.cons_ne_nil _ _
  trimmed := by
    obtain ⟨mark, inside, hmark, -, rfl⟩ := h
    have hblank : isBlank mark = false := by
      rcases hmark with rfl | rfl <;> rfl
    have hlast : (mark :: (inside ++ [mark])).getLast? = some mark := by
      rw [← List.cons_append, List.getLast?_concat]
    exact trim_eq_self_iff.mpr ⟨by simpa using hblank, by simpa [hlast] using hblank⟩
  uncommented := hcomment

end IsQuoted

/-! ### Blanks in front of what is read -/

/-- A cut is made where it was when blanks are put in front of the text. -/
theorem cutSegment_blank_append {blanks : Text} (h : isAllBlank blanks = true) (t : Text) :
    cutSegment none (blanks ++ t) =
      (blanks ++ (cutSegment none t).1, (cutSegment none t).2) := by
  induction blanks with
  | nil => rfl
  | cons c blanks ih =>
    rw [isAllBlank_cons, Bool.and_eq_true] at h
    have hnot {m : Char} (hm : isBlank m = false) : c ≠ m := fun hc => by
      simp [← hc, h.1] at hm
    have hquote : quoteAfter none c = none := by
      rw [quoteAfter, if_neg (by simp [hnot (m := '"') (by decide), hnot (m := '\'') (by decide)])]
    rw [List.cons_append, cutSegment,
      if_neg (by simp [hnot (m := ';') (by decide), hnot (m := '{') (by decide)]), hquote, ih h.2]
    rfl

/-- **Blanks in front of a block move what is dropped from it down**, and leave blanks behind. -/
theorem exists_dropNested_blank_append {blanks : Text} (h : isAllBlank blanks = true) (line : Nat)
    (t : Text) :
    ∃ gap, isAllBlank gap = true ∧ newlines gap = newlines blanks ∧
      dropNested line none (blanks ++ t) =
        (gap ++ (dropNested (line + newlines blanks) none t).1,
          (dropNested (line + newlines blanks) none t).2) := by
  have hcut' := cutSegment_blank_append h t
  rcases hcut : cutSegment none t with ⟨lead, quote, rest⟩
  rw [hcut] at hcut'
  have hlines : line + newlines (blanks ++ lead) = line + newlines blanks + newlines lead := by
    rw [newlines_append, Nat.add_assoc]
  cases rest with
  | nil =>
    refine ⟨blanks, h, rfl, ?_⟩
    rw [dropNested_last _ hcut', dropNested_last _ hcut]
  | cons c rest =>
    obtain ⟨-, -, hmark⟩ := eq_of_cutSegment hcut
    by_cases hc : c = ';'
    · subst hc
      refine ⟨blanks, h, rfl, ?_⟩
      rw [dropNested_semicolon _ hcut', dropNested_semicolon _ hcut, hlines, List.append_assoc]
    · obtain ⟨-, rfl⟩ := hmark.resolve_left hc
      refine ⟨lineBreaks blanks, isAllBlank_lineBreaks _, newlines_lineBreaks _, ?_⟩
      have hbreaks : lineBreaks (blanks ++ lead) = lineBreaks blanks ++ lineBreaks lead :=
        List.filter_append ..
      have hreport (line : Nat) : nestedRule? line (blanks ++ lead) = nestedRule? line lead := by
        rw [nestedRule?, nestedRule?, isAllBlank_append, h, Bool.true_and, trim_blank_append h]
      rw [dropNested_block _ hcut', dropNested_block _ hcut, hlines, hbreaks, hreport]
      simp only [List.append_assoc]

/-! ### Declarations and nested rules in a row -/

/-- **A row of declarations and nested rules**, each of which closes what it opens. -/
inductive IsBlockRow : Text → Prop where
  /-- Nothing. -/
  | nil : IsBlockRow []
  /-- A declaration and its semicolon after the row. -/
  | declaration {s t : Text} (row : IsBlockRow s) (stays : StaysInBlock t)
    (parens : Brackets.parens.IsBalanced (unquoted none t)) : IsBlockRow (s ++ (t ++ [';']))
  /-- A nested rule after the row. -/
  | nested {s : Text} {n : NestedRule} (row : IsBlockRow s) (closed : n.IsClosed)
    (semicolon : ';' ∉ n.prelude) : IsBlockRow (s ++ n.written)

/-- **A text after which a declaration may begin** in a block, also behind nested rules. -/
def AwaitsDeclaration (t : Text) : Prop :=
  ∃ row blanks, IsBlockRow row ∧ isAllBlank blanks = true ∧ t = row ++ blanks

namespace IsBlockRow

variable {s : Text}

theorem closesBlocks (h : IsBlockRow s) : ClosesBlocks s := by
  induction h with
  | nil => exact ⟨rfl, rfl⟩
  | declaration row stays parens ih =>
    exact ih.append (stays.append staysInBlock_semicolon).closesBlocks
  | nested row closed semicolon ih => exact ih.append closed.closesBlocks

/-- **What is left of a row without its nested rules is a row of declarations**, with blanks at its
end if a nested rule was the last. What follows is then read as at the start of a block. -/
theorem exists_dropNested_append (h : IsBlockRow s) (line : Nat) :
    ∃ row gap reports, IsRow row ∧ isAllBlank gap = true ∧
      newlines row + newlines gap = newlines s ∧
      ∀ t, dropNested line none (s ++ t) =
        (row ++ (gap ++ (dropNested (line + newlines s) none t).1),
          reports ++ (dropNested (line + newlines s) none t).2) := by
  induction h with
  | nil => exact ⟨[], [], [], .nil, rfl, rfl, fun t => rfl⟩
  | @declaration s u start stays parens ih =>
    obtain ⟨row, gap, reports, hrow, hgap, hlines, hread⟩ := ih
    have hblank := isSegment_of_isAllBlank hgap
    have hstays := hrow.staysInBlock.append (hblank.toStaysInBlock.append stays)
    refine ⟨(row ++ (gap ++ u)) ++ [';'], [], reports, .snoc hstays ?_, rfl, ?_, fun t => ?_⟩
    · rw [unquoted_append, hrow.staysInBlock.quotes, unquoted_append, hblank.quotes]
      exact hrow.isBalanced.append (hblank.parens.append parens)
    · simp only [newlines_append, ← hlines, newlines_nil]
      omega
    · have hsemicolon : newlines (s ++ (u ++ [';'])) = newlines s + newlines u := by
        rw [newlines_append, newlines_append u]
        rfl
      rw [List.append_assoc, List.append_assoc, List.singleton_append, hread,
        dropNested_append_semicolon (by simp) stays.opening, stays.quotes, hsemicolon,
        ← Nat.add_assoc]
      simp
  | @nested s n start closed semicolon ih =>
    obtain ⟨row, gap, reports, hrow, hgap, hlines, hread⟩ := ih
    refine ⟨row, gap ++ (lineBreaks n.prelude ++ lineBreaks n.inside),
      reports ++ [.unsupportedSelector (line + newlines s + newlines n.prelude) (trim n.prelude)
        "nested rule".toList], hrow, ?_, ?_, fun t => ?_⟩
    · rw [isAllBlank_append, isAllBlank_append, hgap, isAllBlank_lineBreaks, isAllBlank_lineBreaks]
      rfl
    · rw [newlines_append, newlines_append, newlines_lineBreaks, newlines_lineBreaks,
        newlines_append, n.newlines_written, ← hlines, Nat.add_assoc]
    · rw [List.append_assoc, hread, closed.dropNested_append semicolon, newlines_append,
        ← Nat.add_assoc]
      simp

/-- No slash is left at the end for a star to follow. -/
theorem getLast?_ne_slash (h : IsBlockRow s) : s.getLast? ≠ some '/' := by
  cases h with
  | nil => simp
  | declaration => simp
  | @nested s n =>
    have hbrace : s ++ n.written = (s ++ (n.prelude ++ '{' :: n.inside)) ++ ['}'] := by
      simp [NestedRule.written]
    rw [hbrace, List.getLast?_concat]
    simp

end IsBlockRow

namespace AwaitsDeclaration

variable {b : Text}

theorem closesBlocks (h : AwaitsDeclaration b) : ClosesBlocks b := by
  obtain ⟨row, blanks, hrow, hblanks, rfl⟩ := h
  exact hrow.closesBlocks.append (isSegment_of_isAllBlank hblanks).toStaysInBlock.closesBlocks

theorem getLast?_ne_slash (h : AwaitsDeclaration b) : b.getLast? ≠ some '/' := by
  obtain ⟨row, blanks, hrow, hblanks, rfl⟩ := h
  exact getLast?_append_blank_ne (by decide) hblanks hrow.getLast?_ne_slash

end AwaitsDeclaration

/-! ### The inside of a block -/

/-- **What is read from the inside of a block** that begins at a line: its declarations, and the
reports of the rules nested in it. -/
def readBlock (line : Nat) (t : Text) : List Declaration × List Diagnostic :=
  (declarationsOf line (dropNested line none t).1, (dropNested line none t).2)

/-- **The same is read from a block wherever it begins**, so many lines further down. -/
theorem readBlock_add (line k : Nat) (t : Text) :
    readBlock (line + k) t =
      ((readBlock line t).1.map (Declaration.mapLine (· + k)),
        (readBlock line t).2.map (Diagnostic.mapLine (· + k))) := by
  rw [readBlock, dropNested_add, declarationsOf, segmentDeclarations_add, ← declarationsOf,
    readBlock]

/-- **Reading a block goes on where a declaration may begin as it began**, so many lines further
down. -/
theorem AwaitsDeclaration.exists_readBlock_append {b : Text} (h : AwaitsDeclaration b)
    (line : Nat) :
    ∃ ds reports, ∀ t, readBlock line (b ++ t) =
      (ds ++ (readBlock (line + newlines b) t).1,
        reports ++ (readBlock (line + newlines b) t).2) := by
  obtain ⟨row, blanks, hrow, hblanks, rfl⟩ := h
  obtain ⟨row', gap, reports, hrow', hgap, hlines, hread⟩ := hrow.exists_dropNested_append line
  obtain ⟨ds, hds⟩ := hrow'.exists_declarationsOf_append line
  have hline : line + newlines row' + newlines gap = line + newlines row := by
    rw [Nat.add_assoc, hlines]
  refine ⟨ds, reports, fun t => ?_⟩
  obtain ⟨gap', hgap', hlines', hblank⟩ :=
    exists_dropNested_blank_append hblanks (line + newlines row) t
  rw [readBlock, List.append_assoc, hread, hblank, hds, declarationsOf_blank_append hgap, hline,
    declarationsOf_blank_append hgap', hlines', newlines_append, ← Nat.add_assoc, readBlock]

section Pair

variable {name v : Text} (hname : ∀ c ∈ name, Declaration.isNameChar c = true) (hne : name ≠ [])
  (hv : IsValueText v)
include hname

theorem newlines_pair : newlines (name ++ (": ".toList ++ v)) = newlines v := by
  have hnone : newlines name = 0 :=
    List.count_eq_zero.mpr (Declaration.not_mem_name hname (by decide))
  have hcolon : newlines ": ".toList = 0 := rfl
  rw [newlines_append, hnone, newlines_append, hcolon, Nat.zero_add, Nat.zero_add]

include hne hv in
/-- **A block that begins with a declaration** gives it first, and what is read from the rest. -/
theorem readBlock_pair (line : Nat) (t : Text) :
    readBlock line (name ++ (": ".toList ++ v) ++ ';' :: t) =
      ({ property := Declaration.canonicalName name, value := v, line } ::
          (readBlock (line + newlines v) t).1,
        (readBlock (line + newlines v) t).2) := by
  have hsegment := Declaration.isSegment_append_name hname isAllBlank_nil hv
  have hread := Declaration.ofText?_append_name hname isAllBlank_nil hv hne line
  rw [List.nil_append] at hsegment hread
  have hline : lineOf line (name ++ (": ".toList ++ v)) = line := by
    obtain ⟨c, rest, rfl⟩ := List.exists_cons_of_ne_nil hne
    have hc : isBlank c = false := Declaration.isBlank_of_isNameChar (hname c (by simp))
    simp [lineOf, hc]
  rw [readBlock, dropNested_append_semicolon (by simp) hsegment.opening, hsegment.quotes,
    newlines_pair hname, declarationsOf, hsegment.bodySegments_append_semicolon,
    segmentDeclarations, segmentDeclaration?, ← lineOf, hline, hread, newlines_pair hname,
    readBlock, declarationsOf]
  rfl

end Pair

/-! ### A place in a block -/

/-- A rule with selectors keeps the rules before it and those after it apart. -/
theorem Rule.mergeLoose_append_cons {r : Rule} (hr : r.selectors ≠ []) (rs ss : List Rule) :
    mergeLoose (rs ++ r :: ss) = mergeLoose rs ++ r :: mergeLoose ss := by
  have hfirst (ss : List Rule) : mergeInto r ss = r :: ss := by
    cases ss with
    | nil => rfl
    | cons s ss => exact mergeInto_cons_of_not_loose ss fun h => hr h.1
  have hjoin (rs ss : List Rule) : join rs (r :: ss) = rs ++ r :: ss := by
    induction rs with
    | nil => rfl
    | cons u rs ih =>
      cases rs with
      | nil => exact mergeInto_cons_of_not_loose ss fun h => hr h.2
      | cons u' rs =>
        rw [join_cons (List.cons_ne_nil u' rs), ih]
        rfl
  rw [mergeLoose_append, mergeLoose_cons, hfirst, hjoin]

/-- **A place in the block of a rule**, by what stands in front of it. -/
structure BlockPlace where
  /-- What stands in front of the rule. -/
  before : Text
  /-- The text in front of the block. -/
  head : Text
  /-- The inside of the block, up to the place. -/
  block : Text

namespace BlockPlace

/-- The text up to the place. -/
def text (place : BlockPlace) : Text := place.before ++ (place.head ++ '{' :: place.block)

/-- **A declaration may begin at the place**: it is in the block of a rule, outside comments, and
not in the middle of a declaration or of a nested rule. -/
structure TakesDeclaration (place : BlockPlace) : Prop where
  /-- In front of the rule, the reader is at the top level. -/
  before : EndsAtTop place.before
  /-- The head leaves no comment open. -/
  headComments : endsInComment false place.head = false
  /-- The head ends with the brace of the block. -/
  head : ∀ c ∈ stripComments place.head, endsFragment c = false
  /-- It is not that of an at-rule. -/
  notAt : isAtRule (trim (stripComments place.head)) = false
  /-- It has a selector. -/
  selectors : selectorsOf (trim (stripComments place.head)) ≠ []
  /-- The block leaves no comment open. -/
  blockComments : endsInComment false place.block = false
  /-- The block is a row of declarations and nested rules, up to the place. -/
  block : AwaitsDeclaration (stripComments place.block)

/-- **What is read around a place**: the rules before and after that of the block, its declarations
before and after the place, and the reports before and after it. -/
structure Surroundings where
  /-- The rules before that of the block. -/
  rulesBefore : List Rule
  /-- The selectors of the block. -/
  selectors : List Text
  /-- The line of the rule of the block. -/
  line : Nat
  /-- The declarations of the block before the place. -/
  declarationsBefore : List Declaration
  /-- The declarations of the block after the place. -/
  declarationsAfter : List Declaration
  /-- The rules after that of the block. -/
  rulesAfter : List Rule
  /-- The reports before the place. -/
  reportsBefore : List Diagnostic
  /-- The reports after the place. -/
  reportsAfter : List Diagnostic

/-- **The stylesheet with declarations at the place**, and with all that comes after it so many
lines further down. -/
def Surroundings.fill (around : Surroundings) (ds : List Declaration) (move : Nat) :
    Stylesheet where
  rules := around.rulesBefore ++
    { selectors := around.selectors,
      declarations := around.declarationsBefore
        ++ (ds ++ around.declarationsAfter.map (Declaration.mapLine (· + move))),
      line := around.line } :: around.rulesAfter.map (Rule.mapLine (· + move))
  diagnostics := around.reportsBefore ++ around.reportsAfter.map (Diagnostic.mapLine (· + move))

namespace TakesDeclaration

variable {place : BlockPlace}

theorem stripComments_append (h : place.TakesDeclaration) (t : Text) :
    stripComments (place.text ++ t) =
      stripComments place.before ++ (stripComments place.head ++
        '{' :: (stripComments place.block ++ stripComments t)) := by
  have hblock : stripComments (place.block ++ t) =
      stripComments place.block ++ stripComments t :=
    stripCommentsFrom_append h.blockComments (Or.inl h.block.getLast?_ne_slash)
  have htext : place.text ++ t = place.before ++ (place.head ++ '{' :: (place.block ++ t)) := by
    simp [text]
  rw [htext, h.before.stripComments_append,
    stripComments_append_cons h.headComments (by decide) (by decide), hblock]

/-- The fragment of the block goes on at the place. -/
theorem exists_fragmentsOf (h : place.TakesDeclaration) :
    ∃ fs line bodyLine, bodyLine + newlines (stripComments place.block) = 1 + newlines place.text ∧
      ∀ t, let rest := splitBlock 0 none (stripComments t)
        Stylesheet.fragmentsOf (place.text ++ t) =
          fs ++ .block line (trim (stripComments place.head)) bodyLine
              (stripComments place.block ++ rest.1) ::
            fragments (1 + newlines place.text + newlines rest.1) rest.2 := by
  obtain ⟨fs, -, -, happend⟩ := exists_fragments_append h.before.top 1
  let start := 1 + newlines (stripComments place.before)
  have hline : start + newlines (stripComments place.head) + newlines (stripComments place.block) =
      1 + newlines place.text := by
    simp only [start, newlines_stripComments, text, newlines_append]
    rw [newlines_cons_of_ne (by decide)]
    omega
  refine ⟨fs, lineOf start (stripComments place.head),
    start + newlines (stripComments place.head), hline, fun t => ?_⟩
  have hsplit := splitBlock_append h.block.closesBlocks.braces (stripComments t)
  rw [h.block.closesBlocks.quotes] at hsplit
  rw [Stylesheet.fragmentsOf, h.stripComments_append, happend, fragments_open h.head, hsplit,
    newlines_append, ← Nat.add_assoc, hline]

/-- **Reading goes on at the place as at the start of a block**, at the line of the place. -/
theorem exists_ofText (h : place.TakesDeclaration) :
    ∃ rules selectors line ds reports, ∀ t,
      let here := 1 + newlines place.text
      let rest := splitBlock 0 none (stripComments t)
      Stylesheet.ofText (place.text ++ t) =
        { rules := rules ++
            { selectors, declarations := ds ++ (readBlock here rest.1).1, line } ::
              Rule.mergeLoose
                ((fragments (here + newlines rest.1) rest.2).flatMap Fragment.rules),
          diagnostics := reports ++ ((readBlock here rest.1).2 ++
            (fragments (here + newlines rest.1) rest.2).flatMap Fragment.diagnostics) } := by
  obtain ⟨fs, line, bodyLine, hline, hfragments⟩ := h.exists_fragmentsOf
  obtain ⟨ds, reports, hread⟩ := h.block.exists_readBlock_append bodyLine
  rw [hline] at hread
  refine ⟨Rule.mergeLoose (fs.flatMap Fragment.rules),
    selectorsOf (trim (stripComments place.head)), line, ds,
    fs.flatMap Fragment.diagnostics ++ reports, fun t => ?_⟩
  have hrules (body : Text) :
      (Fragment.block line (trim (stripComments place.head)) bodyLine body).rules =
        [{ selectors := selectorsOf (trim (stripComments place.head)),
           declarations := (readBlock bodyLine body).1, line }] := by
    obtain ⟨s, ss, hss⟩ := List.exists_cons_of_ne_nil h.selectors
    rw [Fragment.rules, h.notAt, hss]
    rfl
  have hdiagnostics (body : Text) :
      (Fragment.block line (trim (stripComments place.head)) bodyLine body).diagnostics =
        (readBlock bodyLine body).2 := by
    rw [Fragment.diagnostics, h.notAt]
    rfl
  dsimp only
  rw [Stylesheet.ofText, hfragments, List.flatMap_append, List.flatMap_append, List.flatMap_cons,
    List.flatMap_cons, hrules, hdiagnostics, hread, List.singleton_append,
    Rule.mergeLoose_append_cons (by exact h.selectors), List.append_assoc, List.append_assoc]

end TakesDeclaration

end BlockPlace

/-! ### The theorem -/

/-- **Quoted values are read as they are written**, unless a comment begins in them. At a place that
takes a declaration, what is read from a text does not change but for the declaration itself and for
the lines that it has: neither the rules and declarations before and after it, nor the reports, and
the value is what stands there, with its quotes. -/
theorem ofText_quotedValue {place : BlockPlace} (h : place.TakesDeclaration) {name : Text}
    (hname : ∀ c ∈ name, Declaration.isNameChar c = true) (hne : name ≠ []) (after : Text) :
    ∃ around : BlockPlace.Surroundings,
      Stylesheet.ofText (place.text ++ after) = around.fill [] 0 ∧
        ∀ v, IsQuoted v → ¬"/*".toList <:+: v →
          Stylesheet.ofText (place.text ++ (name ++ (": ".toList ++ v) ++ ';' :: after)) =
            around.fill [⟨Declaration.canonicalName name, v, 1 + newlines place.text⟩]
              (newlines v) := by
  obtain ⟨rules, selectors, line, ds, reports, hread⟩ := h.exists_ofText
  let here := 1 + newlines place.text
  let rest := splitBlock 0 none (stripComments after)
  let around : BlockPlace.Surroundings :=
    { rulesBefore := rules, selectors, line, declarationsBefore := ds,
      declarationsAfter := (readBlock here rest.1).1,
      rulesAfter := Rule.mergeLoose
        ((fragments (here + newlines rest.1) rest.2).flatMap Fragment.rules),
      reportsBefore := reports,
      reportsAfter := (readBlock here rest.1).2
        ++ (fragments (here + newlines rest.1) rest.2).flatMap Fragment.diagnostics }
  -- moving down what was read is reading it further down
  have hfill (ds' : List Declaration) (k : Nat) : around.fill ds' k =
      { rules := rules ++
          { selectors, declarations := ds ++ (ds' ++ (readBlock (here + k) rest.1).1), line } ::
            Rule.mergeLoose
              ((fragments (here + k + newlines rest.1) rest.2).flatMap Fragment.rules),
        diagnostics := reports ++ ((readBlock (here + k) rest.1).2 ++
          (fragments (here + k + newlines rest.1) rest.2).flatMap Fragment.diagnostics) } := by
    rw [BlockPlace.Surroundings.fill, readBlock_add, Nat.add_right_comm here k,
      flatMap_rules_fragments_add, flatMap_diagnostics_fragments_add,
      Rule.mergeLoose_map_mapLine, List.map_append]
  refine ⟨around, ?_, fun v hv hcomment => ?_⟩
  · rw [hread, hfill]
    rfl
  · have hvalue := hv.isValueText hcomment
    have hsemicolon : IsUncommented [';'] := isUncommented_of_not_mem (by decide)
    have hcolon : IsUncommented ": ".toList := isUncommented_of_not_mem (by decide)
    have huncommented : IsUncommented (name ++ (": ".toList ++ (v ++ [';']))) :=
      (isUncommented_of_not_mem (Declaration.not_mem_name hname (by decide))).append
        (hcolon.append (hsemicolon.append_cons hcomment (by decide)))
    have hstrip : stripComments (name ++ (": ".toList ++ v) ++ ';' :: after) =
        (name ++ (": ".toList ++ v) ++ [';']) ++ stripComments after := by
      have hread := huncommented after
      simpa using hread
    have hclosed : ClosesBlocks (name ++ (": ".toList ++ v) ++ [';']) := by
      have hpair := Declaration.isSegment_append_name hname isAllBlank_nil hvalue
      exact (hpair.toStaysInBlock.append staysInBlock_semicolon).closesBlocks
    have hsplit := splitBlock_append hclosed.braces (stripComments after)
    rw [hclosed.quotes, List.append_assoc, List.singleton_append] at hsplit
    have hlines : newlines (name ++ (": ".toList ++ v) ++ ';' :: rest.1) =
        newlines v + newlines rest.1 := by
      rw [newlines_append, newlines_pair hname, newlines_cons_of_ne (by decide)]
    rw [hread, hstrip, List.append_assoc, List.singleton_append, hsplit, hfill]
    dsimp only
    rw [List.append_assoc (_ ++ _) [';'], List.singleton_append, readBlock_pair hname hne hvalue,
      hlines, ← Nat.add_assoc]
    rfl

/-- A place after a stray brace and a declaration outside every block, in a block with a comment, a
brace in quotes and a nested rule. -/
def tabPlace : BlockPlace where
  before := "\x7d --x: 1;".toList
  head := "a /* b */ ".toList
  block := "c: '\x7d'; &:d \x7b e: 0 \x7d /* f */\n".toList

theorem takesDeclaration_tabPlace : tabPlace.TakesDeclaration where
  before := by decide
  headComments := by decide
  head := by
    have hends : (stripComments tabPlace.head).all (!endsFragment ·) = true := by decide
    simpa using hends
  notAt := by decide
  selectors := by decide
  blockComments := by decide
  block := by
    have hquoted : StaysInBlock "c: '\x7d'".toList := ⟨by decide, by decide, by decide⟩
    have hnested : (NestedRule.mk " &:d ".toList " e: 0 ".toList).IsClosed :=
      ⟨⟨by decide, by decide, by decide⟩, by decide, ⟨by decide, by decide⟩⟩
    exact ⟨_, "  \n".toList, (IsBlockRow.nil.declaration hquoted (by decide)).nested hnested
      (by decide), by decide, by decide⟩

/-- A quoted text with braces, a semicolon, the end of a comment, the other mark, and a line break. -/
def tabText : Text := "'\x7d;*/ \"\x7b\n'".toList

theorem ofText_quotedValue_tab :
    tabPlace.TakesDeclaration ∧ IsQuoted tabText ∧
      ∃ around : BlockPlace.Surroundings,
        Stylesheet.ofText (tabPlace.text ++ " g: 2 \x7d h".toList) = around.fill [] 0 ∧
          Stylesheet.ofText (tabPlace.text
              ++ ("Tab".toList ++ (": ".toList ++ tabText) ++ ';' :: " g: 2 \x7d h".toList)) =
            around.fill [⟨"tab".toList, tabText, 2⟩] 1 := by
  have htext : IsQuoted tabText :=
    ⟨'\'', "\x7d;*/ \"\x7b\n".toList, Or.inr rfl, by decide, rfl⟩
  have hname : ∀ c ∈ "Tab".toList, Declaration.isNameChar c = true :=
    List.all_eq_true.mp (by decide)
  obtain ⟨around, hwithout, hwith⟩ := ofText_quotedValue takesDeclaration_tabPlace hname
    (by decide) " g: 2 \x7d h".toList
  exact ⟨takesDeclaration_tabPlace, htext, around, hwithout,
    hwith tabText htext (by decide +kernel)⟩

/-! ### Quoted text in which a comment begins -/

/-- A character that is no part of a comment's mark parts a text in two, each without comments. -/
theorem not_comment_append_cons {s t : Text} {c : Char} (hslash : c ≠ '/') (hstar : c ≠ '*')
    (hs : ¬"/*".toList <:+: s) (ht : ¬"/*".toList <:+: t) : ¬"/*".toList <:+: s ++ c :: t := by
  induction s with
  | nil => exact not_comment_cons_iff.mpr ⟨fun h => hslash h.1, ht⟩
  | cons x s ih =>
    obtain ⟨hx, hs⟩ := not_comment_cons_iff.mp hs
    refine not_comment_cons_iff.mpr ⟨fun h => ?_, ih hs⟩
    cases s with
    | nil => exact hstar (Option.some.inj h.2)
    | cons y s => exact hx h

/-- No comment begins where blanks stand in front of a text. -/
theorem not_comment_blank_append {gap t : Text} (hgap : isAllBlank gap = true)
    (ht : ¬"/*".toList <:+: t) : ¬"/*".toList <:+: gap ++ t := by
  induction gap with
  | nil => exact ht
  | cons c gap ih =>
    rw [isAllBlank_cons, Bool.and_eq_true] at hgap
    refine not_comment_cons_iff.mpr ⟨?_, ih hgap.2⟩
    rintro ⟨rfl, -⟩
    exact absurd hgap.1 (by decide)

/-- **No comment comes about where nested rules were dropped**: their line breaks keep apart what
stood around them. -/
theorem not_comment_dropNested {line : Nat} {quote : Option Char} {t : Text}
    (h : ¬"/*".toList <:+: t) : ¬"/*".toList <:+: (dropNested line quote t).1 := by
  fun_induction dropNested line quote t with
  | case1 line quote t lead quote' hcut =>
    have happend := cutSegment_append quote t
    rw [hcut, List.append_nil] at happend
    rwa [← happend] at h
  | case2 line quote t lead quote' rest p hcut ih =>
    obtain ⟨rfl, -⟩ := eq_of_cutSegment hcut
    obtain ⟨hlead, hrest⟩ := not_comment_of_append_cons h
    exact not_comment_append_cons (by decide) (by decide) hlead (ih hrest)
  | case3 line quote t lead quote' c rest hcut hc nested p ih =>
    obtain ⟨rfl, -⟩ := eq_of_cutSegment hcut
    have hrest := (not_comment_of_append_cons h).2
    rw [List.append_assoc]
    exact not_comment_blank_append (isAllBlank_lineBreaks lead)
      (not_comment_blank_append (isAllBlank_lineBreaks _)
        (ih (not_comment_of_isInfix (splitBlock_snd_isInfix 0 none rest) hrest)))

/-- **In no value of a text without comments one begins.** -/
theorem not_comment_of_mem_fragments {line : Nat} {t : Text} (h : ¬"/*".toList <:+: t)
    {d : Declaration} (hd : d ∈ (fragments line t).flatMap Fragment.declarations) :
    ¬"/*".toList <:+: d.value := by
  have hstatement {line : Nat} {lead : Text} (h : ¬"/*".toList <:+: lead)
      (hd : d ∈ (Fragment.statement line (trim lead)).declarations) : ¬"/*".toList <:+: d.value :=
    not_comment_of_isInfix
      ((value_infix_of_ofText? (ofText?_of_mem_statement hd)).1.trans (trim_isInfix lead)) h
  induction t using fragments_induction generalizing line with
  | last t ht =>
    rw [fragments_last ht, List.flatMap_singleton] at hd
    exact hstatement h hd
  | block lead rest hends ih =>
    have hrest := (not_comment_of_append_cons h).2
    rw [fragments_open hends, List.flatMap_cons, List.mem_append] at hd
    rcases hd with hd | hd
    · obtain ⟨s, hs, line', hread⟩ := exists_of_mem_block hd
      have hinside : ¬"/*".toList <:+:
          (dropNested (line + newlines lead) none (splitBlock 0 none rest).1).1 :=
        not_comment_dropNested
          (not_comment_of_isInfix (splitBlock_fst_isInfix 0 none rest) hrest)
      exact not_comment_of_isInfix
        ((value_infix_of_ofText? hread).1.trans (isInfix_of_mem_bodySegments hs)) hinside
    · exact ih (not_comment_of_isInfix (splitBlock_snd_isInfix 0 none rest) hrest) hd
  | statement lead rest hends ih =>
    obtain ⟨hlead, hrest⟩ := not_comment_of_append_cons h
    rw [fragments_semicolon hends, List.flatMap_cons, List.mem_append] at hd
    exact hd.elim (hstatement hlead) (ih hrest)
  | stray lead rest hends ih =>
    rw [fragments_close hends] at hd
    exact ih (not_comment_of_append_cons h).2 hd

/-- **No comment begins in a value that is read**, whatever the source: a quoted text in which one
begins is not among the values. -/
theorem not_comment_of_mem_ofText {source : Text} {r : Rule}
    (hr : r ∈ (Stylesheet.ofText source).rules) {d : Declaration} (hd : d ∈ r.declarations) :
    ¬"/*".toList <:+: d.value := by
  have hmem : d ∈ (Stylesheet.ofText source).rules.flatMap Rule.declarations :=
    List.mem_flatMap.mpr ⟨r, hr, hd⟩
  rw [Stylesheet.ofText, Rule.flatMap_declarations_mergeLoose, List.flatMap_assoc] at hmem
  exact not_comment_of_mem_fragments (not_comment_stripComments source) hmem

/-- A place at the start of a block. -/
def iconPlace : BlockPlace := ⟨[], ".a ".toList, " ".toList⟩

/-- **A quoted comment mark takes the rest of the stylesheet with it.** The value is a quoted text, at a
place that takes a declaration; what is read as the value is the mark that opens its quote, and the
declaration after it is lost. -/
theorem ofText_starIcon :
    let icon := "\"/*\"".toList
    let source := iconPlace.text
      ++ ("content".toList ++ (": ".toList ++ icon) ++ ';' :: " color: red; \x7d".toList)
    (iconPlace.TakesDeclaration ∧ IsQuoted icon) ∧
      source = ".a \x7b content: \"/*\"; color: red; \x7d".toList ∧
      (Stylesheet.ofText source).rules =
        [⟨[".a".toList], [⟨"content".toList, "\"".toList, 1⟩], 1⟩] ∧
      (Stylesheet.ofText source).rules ≠
        [⟨[".a".toList], [⟨"content".toList, icon, 1⟩, ⟨"color".toList, "red".toList, 1⟩], 1⟩] := by
  have hplace : iconPlace.TakesDeclaration :=
    { before := by decide
      headComments := by decide
      head := by
        have hends : (stripComments iconPlace.head).all (!endsFragment ·) = true := by decide
        simpa using hends
      notAt := by decide
      selectors := by decide
      blockComments := by decide
      block := ⟨[], " ".toList, .nil, by decide, by decide⟩ }
  have hicon : IsQuoted "\"/*\"".toList := ⟨'"', "/*".toList, Or.inl rfl, by decide, rfl⟩
  refine ⟨⟨hplace, hicon⟩, by decide, ?_, ?_⟩
  all_goals decide +kernel

end CssResources
