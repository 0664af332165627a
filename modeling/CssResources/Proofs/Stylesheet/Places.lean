import CssResources.Proofs.Stylesheet.LooseDeclarations
import CssResources.Proofs.Stylesheet.PlacedText

/-!
# The lines of rules and declarations

The reader cuts a stylesheet and rewrites it, and counts lines as it goes. Here the same cuts are
made in a text whose characters know their places (`CssResources.PlacedText`), so that what is
read stands **at a place of the source** instead of at a line:

| reader | reader of places | the same text |
|---|---|---|
| `CssResources.splitBlock` | `PlacedText.inBlock`, `PlacedText.afterBlock` | `PlacedText.text_inBlock` |
| `CssResources.cutSegment` | `PlacedText.lead`, `PlacedText.afterLead` | `PlacedText.cutSegment_text` |
| `CssResources.dropNested` | `PlacedText.dropNested` | `PlacedText.text_dropNested` |
| `CssResources.declarationsOf` | `PlacedText.declarations` | `PlacedText.declarationsOf_text` |
| `CssResources.fragments` | `PlacedText.fragments` | `PlacedText.flatMap_rules_fragments` |

A text that traces the source goes on to do so through every cut, and when nested rules are
dropped from it (`CssResources.Traces.dropNested`). So **no line is lost**: the rules that are read
are those read by place, each place replaced by its line, and each rule and each declaration
begins at its place (`CssResources.rules_ofText_at_places`).
-/

namespace CssResources

variable {source : Text}

/-! ### Blocks -/

namespace PlacedText

/-- What stands in a block, up to its closing brace. -/
def inBlock (ts : PlacedText) : PlacedText := ts.take (splitBlock 0 none ts.text).1.length

/-- What follows the closing brace of a block. -/
def afterBlock (ts : PlacedText) : PlacedText :=
  ts.drop ((splitBlock 0 none ts.text).1.length + 1)

theorem block_cases (ts : PlacedText) :
    ts.inBlock = ts ∧ ts.afterBlock = [] ∨
      ∃ place, ts = ts.inBlock ++ ('}', place) :: ts.afterBlock := by
  rcases splitBlock_cases 0 none ts.text with ⟨h, -⟩ | h
  · have hlength : (splitBlock 0 none ts.text).1.length = ts.length := by rw [← h, length_text]
    exact Or.inl ⟨by simp [inBlock, hlength], by simp [afterBlock, hlength]⟩
  · exact Or.inr (eq_of_text_eq h)

theorem text_inBlock (ts : PlacedText) : ts.inBlock.text = (splitBlock 0 none ts.text).1 := by
  rw [inBlock, text_take]
  rcases splitBlock_cases 0 none ts.text with h | h
  · rw [← h.1, List.take_length]
  · nth_rw 2 [h]
    rw [List.take_left]

theorem text_afterBlock (ts : PlacedText) :
    ts.afterBlock.text = (splitBlock 0 none ts.text).2 := by
  rw [afterBlock, text_drop]
  rcases splitBlock_cases 0 none ts.text with h | h
  · rw [h.2, ← h.1]
    simp
  · nth_rw 2 [h]
    simp

theorem afterBlock_isInfix (ts : PlacedText) : ts.afterBlock <:+: ts :=
  (List.drop_suffix _ ts).isInfix

end PlacedText

namespace Traces

variable {line : Nat} {ts : PlacedText}

theorem inBlock (h : Traces source line ts) : Traces source line ts.inBlock := by
  rcases ts.block_cases with ⟨hts, -⟩ | ⟨place, hts⟩
  · rwa [hts]
  · exact left (hts ▸ h)

theorem afterBlock (h : Traces source line ts) :
    Traces source (line + newlines ts.inBlock.text) ts.afterBlock := by
  rcases ts.block_cases with ⟨-, hts⟩ | ⟨place, hts⟩
  · rw [hts]
    exact nil
  · rw [hts] at h
    exact h.after (by simp)

end Traces

/-! ### Nested rules -/

namespace PlacedText

/-- What stands in front of the first semicolon, or of the first brace that opens a block. -/
def lead (quote : Option Char) (ts : PlacedText) : PlacedText :=
  ts.take (cutSegment quote ts.text).1.length

/-- The text from this semicolon or brace on. -/
def afterLead (quote : Option Char) (ts : PlacedText) : PlacedText :=
  ts.drop (cutSegment quote ts.text).1.length

theorem lead_append_afterLead (quote : Option Char) (ts : PlacedText) :
    ts.lead quote ++ ts.afterLead quote = ts :=
  List.take_append_drop _ ts

/-- **The inside of a block without the rules nested in it.** Of these the line breaks stay, where
they stand. -/
def dropNested (quote : Option Char) (ts : PlacedText) : PlacedText :=
  match _h : ts.afterLead quote with
  | [] => ts.lead quote
  | c :: rest =>
    if c.1 = ';' then
      ts.lead quote ++ c :: dropNested (quoteAtEnd quote (ts.lead quote).text) rest
    else
      lineBreaks (lead quote ts)
        ++ (lineBreaks (inBlock rest) ++ dropNested none (afterBlock rest))
termination_by ts.length
decreasing_by
  all_goals
    have hlength : rest.length < ts.length := by
      have hdrop := congrArg List.length _h
      rw [afterLead, List.length_drop, List.length_cons] at hdrop
      omega
  · exact hlength
  · exact Nat.lt_of_le_of_lt (afterBlock_isInfix rest).length_le hlength

section Lead

variable {quote : Option Char} {ts rest : PlacedText} {c : Char × Nat}

theorem text_lead : (ts.lead quote).text = (cutSegment quote ts.text).1 := by
  have h := cutSegment_append quote ts.text
  rw [lead, text_take]
  nth_rw 2 [← h]
  exact List.take_left

theorem text_afterLead : (ts.afterLead quote).text = (cutSegment quote ts.text).2.2 := by
  have h := cutSegment_append quote ts.text
  rw [afterLead, text_drop]
  nth_rw 2 [← h]
  exact List.drop_left

/-- The text is cut where the text without the places is. -/
theorem cutSegment_text (h : ts.afterLead quote = c :: rest) :
    cutSegment quote ts.text =
      ((ts.lead quote).text, quoteAtEnd quote (ts.lead quote).text, c.1 :: rest.text) := by
  have hcut : cutSegment quote ts.text =
      ((ts.lead quote).text, (cutSegment quote ts.text).2.1, c.1 :: rest.text) := by
    rw [text_lead, ← text_cons, ← h, text_afterLead]
  rwa [← (eq_of_cutSegment hcut).2.1]

theorem eq_of_afterLead (h : ts.afterLead quote = c :: rest) : c.1 = ';' ∨ c.1 = '{' :=
  (eq_of_cutSegment (cutSegment_text h)).2.2.imp_right And.right

end Lead

theorem text_dropNested (line : Nat) (quote : Option Char) (ts : PlacedText) :
    (ts.dropNested quote).text = (CssResources.dropNested line quote ts.text).1 := by
  fun_induction dropNested quote ts generalizing line with
  | case1 quote ts h =>
    have hcut : cutSegment quote ts.text =
        ((ts.lead quote).text, (cutSegment quote ts.text).2.1, []) := by
      rw [text_lead, ← text_nil, ← h, text_afterLead]
    rw [dropNested_last line hcut]
  | case2 quote ts c rest h hc ih =>
    have hcut := cutSegment_text h
    rw [hc] at hcut
    rw [dropNested_semicolon line hcut, text_append, text_cons, ih, hc]
  | case3 quote ts c rest h hc ih =>
    have hcut := cutSegment_text h
    rw [(eq_of_afterLead h).resolve_left hc] at hcut
    rw [dropNested_block line hcut, text_append, text_append, text_lineBreaks, text_lineBreaks,
      text_inBlock, ih, text_afterBlock, List.append_assoc]

end PlacedText

/-- **What is left of a block without its nested rules is still at its lines.** A dropped passage
begins after a semicolon or at the start of the block, so it parts no name. -/
theorem Traces.dropNested {line : Nat} {ts : PlacedText} (quote : Option Char)
    (h : Traces source line ts) : Traces source line (ts.dropNested quote) := by
  fun_induction PlacedText.dropNested quote ts generalizing line with
  | case1 quote ts hlead =>
    rw [← ts.lead_append_afterLead quote] at h
    exact h.left
  | case2 quote ts c rest hlead hc ih =>
    rw [← ts.lead_append_afterLead quote, hlead, List.append_cons] at h
    rw [List.append_cons]
    refine h.left.append (ih h.right) fun d hd _ _ => ?_
    obtain rfl : c = d := by simpa using hd
    exact Or.inr (Or.inr (Or.inr hc))
  | case3 quote ts c rest hlead hc ih =>
    rw [← ts.lead_append_afterLead quote, hlead] at h
    have hbrace : c.1 = '{' := (PlacedText.eq_of_afterLead hlead).resolve_left hc
    have hrest := h.after (by simp [hbrace])
    exact h.left.lineBreaks_append (hrest.inBlock.lineBreaks_append (ih hrest.afterBlock))

/-! ### Declarations -/

namespace PlacedText

/-- **The place where a text begins**: that of its first character that is not blank. -/
def start (ts : PlacedText) : Nat := ((ts.find? (!isBlank ·.1)).map Prod.snd).getD 0

/-- The declaration of a segment, at the place where the segment begins. -/
def declaration? (segment : PlacedText) : Option Declaration :=
  Declaration.ofText? segment.start segment.text

/-- The pieces of a text that spell the texts given, with a character between each two of them. -/
def pieces : List Text → PlacedText → List PlacedText
  | [], _ => []
  | s :: ss, ts => ts.take s.length :: pieces ss (ts.drop (s.length + 1))

/-- **The declarations of the inside of a block**, at their places. -/
def declarations (body : PlacedText) : List Declaration :=
  (pieces (bodySegments 0 none body.text) body).filterMap declaration?

theorem start_append {ss us : PlacedText} {c : Char × Nat} (hss : isAllBlank ss.text = true)
    (hc : isBlank c.1 = false) : start (ss ++ c :: us) = c.2 := by
  have hnone : ss.find? (!isBlank ·.1) = none := List.find?_eq_none.mpr fun d hd => by
    simp [isBlank_of_mem_isAllBlank hss (List.mem_map_of_mem hd)]
  simp [start, List.find?_append, hnone, hc]

/-- A text that is not blank is blank up to the character that it begins with. -/
theorem exists_eq_append_of_isAllBlank {ts : PlacedText} (h : isAllBlank ts.text = false) :
    ∃ ss c us, ts = ss ++ c :: us ∧ isAllBlank (text ss) = true ∧ isBlank c.1 = false := by
  induction ts with
  | nil => simp at h
  | cons d ts ih =>
    cases hd : isBlank d.1 with
    | false => exact ⟨[], d, ts, rfl, rfl, hd⟩
    | true =>
      obtain ⟨ss, c, us, rfl, hss, hc⟩ := ih (by simpa [hd] using h)
      exact ⟨d :: ss, c, us, rfl, by simpa [hd] using hss, hc⟩

theorem isInfix_of_mem_pieces {ss : List Text} {ts p : PlacedText} (h : p ∈ pieces ss ts) :
    p <:+: ts := by
  induction ss generalizing ts with
  | nil => simp [pieces] at h
  | cons s ss ih =>
    rcases List.mem_cons.mp h with rfl | h
    · exact (List.take_prefix _ ts).isInfix
    · exact (ih h).trans (List.drop_suffix _ ts).isInfix

/-- **Counting line breaks up to the beginning of a text gives the line of the place** where it
begins. -/
theorem lineOf_text {line : Nat} {ts : PlacedText} (h : KeepsLines source line ts)
    (hblank : isAllBlank ts.text = false) : lineOf line ts.text = lineAt source ts.start := by
  induction ts generalizing line with
  | nil => simp at hblank
  | cons c ts ih =>
    rw [lineOf, text_cons, start, List.find?_cons, List.takeWhile_cons]
    cases hc : isBlank c.1 with
    | false => simpa using h.1
    | true =>
      have hrest : isAllBlank (text ts) = false := by simpa [hc] using hblank
      have hline := ih h.2 hrest
      rw [lineOf, start, Nat.add_assoc, ← newlines_append] at hline
      exact hline

end PlacedText

namespace Declaration

theorem isAllBlank_of_ofText? {line : Nat} {t : Text} {d : Declaration}
    (h : ofText? line t = some d) : isAllBlank t = false := by
  refine Bool.eq_false_iff.mpr fun hblank => ?_
  rw [ofText?, splitOnce?_of_not_mem (not_mem_of_isAllBlank hblank (by decide))] at h
  simp at h

/-- **A declaration is at the line of its place.** -/
theorem ofText?_lineOf {line : Nat} {ts : PlacedText} (h : KeepsLines source line ts) :
    ofText? (lineOf line ts.text) ts.text = ts.declaration?.map (mapLine (lineAt source)) := by
  cases hblank : isAllBlank ts.text with
  | false => rw [PlacedText.lineOf_text h hblank, PlacedText.declaration?, ofText?_mapLine]
  | true =>
    have hnone (line : Nat) : ofText? line ts.text = none :=
      Option.eq_none_iff_forall_ne_some.mpr fun d hd => by
        simp [isAllBlank_of_ofText? hd] at hblank
    rw [PlacedText.declaration?, hnone, hnone]
    rfl

end Declaration

theorem segmentDeclarations_pieces {line : Nat} {ss : List Text} {ts : PlacedText} (hss : ss ≠ [])
    (hts : ts.text = [';'].intercalate ss) (h : KeepsLines source line ts) :
    segmentDeclarations line ss =
      ((PlacedText.pieces ss ts).filterMap PlacedText.declaration?).map
        (Declaration.mapLine (lineAt source)) := by
  induction ss generalizing line ts with
  | nil => exact absurd rfl hss
  | cons s ss ih =>
    rw [segmentDeclarations, PlacedText.pieces, List.filterMap_cons]
    cases ss with
    | nil =>
      rw [List.intercalate_singleton] at hts
      subst hts
      have hfirst : segmentDeclaration? line ts.text = _ := Declaration.ofText?_lineOf h
      rw [PlacedText.length_text, List.take_length, hfirst]
      cases ts.declaration? <;> rfl
    | cons s' ss =>
      rw [List.intercalate_cons_cons, List.append_assoc, List.singleton_append] at hts
      obtain ⟨place, heq⟩ := PlacedText.eq_of_text_eq hts
      have hs : PlacedText.text (ts.take s.length) = s := by
        rw [PlacedText.text_take, hts, List.take_left]
      have hrest : PlacedText.text (ts.drop (s.length + 1)) = [';'].intercalate (s' :: ss) := by
        rw [PlacedText.text_drop, hts]
        simp
      rw [heq, keepsLines_append, hs] at h
      -- the semicolon between the segments is no line break
      have hlines : KeepsLines source (line + newlines s) (ts.drop (s.length + 1)) := h.2.2
      have hfirst : segmentDeclaration? line (PlacedText.text (ts.take s.length)) = _ :=
        Declaration.ofText?_lineOf h.1
      rw [hs] at hfirst
      rw [hfirst, ih (List.cons_ne_nil _ _) hrest hlines]
      cases PlacedText.declaration? (ts.take s.length) <;> rfl

/-- **The declarations of a block are at the lines of their places.** -/
theorem PlacedText.declarationsOf_text {line : Nat} {body : PlacedText}
    (h : KeepsLines source line body) :
    declarationsOf line body.text = body.declarations.map (Declaration.mapLine (lineAt source)) :=
  segmentDeclarations_pieces (bodySegments_ne_nil 0 none _)
    (intercalate_bodySegments 0 none _).symm h

/-! ### Fragments -/

/-- **A fragment of the top level**, with its characters at their places. -/
inductive PlacedFragment where
  /-- A text up to a semicolon, or up to the end of the stylesheet. -/
  | statement (text : PlacedText)
  /-- A head and the inside of the block after it. -/
  | block (head body : PlacedText)

namespace PlacedFragment

/-- **The rules of a fragment**, of which there is one at most. They and their declarations have
their places for lines. -/
def rules : PlacedFragment → List Rule
  | statement ts =>
    if isAtRule (trim ts.text) then []
    else
      match ts.declaration? with
      | none => []
      | some d => [{ selectors := [], declarations := [d], line := ts.start }]
  | block head body =>
    if isAtRule (trim head.text) then []
    else
      match selectorsOf (trim head.text) with
      | [] => []
      | selectors =>
        [{ selectors, declarations := (body.dropNested none).declarations, line := head.start }]

/-- A group with a selector is not blank. -/
theorem isAllBlank_of_selectorsOf {t : Text} (h : selectorsOf (trim t) ≠ []) :
    isAllBlank t = false := by
  refine Bool.eq_false_iff.mpr fun hblank => h ?_
  rw [trim, trimStart_eq_nil_iff.mpr hblank, trimEnd_nil, selectorsOf_nil]

theorem rules_statement {line : Nat} {ts : PlacedText} (h : KeepsLines source line ts) :
    (Fragment.statement (lineOf line ts.text) (trim ts.text)).rules =
      (statement ts).rules.map (Rule.mapLine (lineAt source)) := by
  rw [Fragment.rules, rules]
  split
  · rfl
  · rw [ofText?_trim, Declaration.ofText?_lineOf h]
    cases hd : ts.declaration? with
    | none => rfl
    | some d =>
      have hblank : isAllBlank ts.text = false := Declaration.isAllBlank_of_ofText? hd
      simp only [Option.map_some, PlacedText.lineOf_text h hblank]
      rfl

theorem rules_block {line bodyLine : Nat} {head body : PlacedText}
    (hhead : KeepsLines source line head) (hbody : Traces source bodyLine body) :
    (Fragment.block (lineOf line head.text) (trim head.text) bodyLine body.text).rules =
      (block head body).rules.map (Rule.mapLine (lineAt source)) := by
  rw [Fragment.rules, rules]
  split
  · rfl
  · cases hs : selectorsOf (trim head.text) with
    | nil => rfl
    | cons s ss =>
      have hblank : isAllBlank head.text = false :=
        isAllBlank_of_selectorsOf (by rw [hs]; exact List.cons_ne_nil s ss)
      have hnested := (hbody.dropNested none).keepsLines
      simp only [List.map_cons, List.map_nil, Rule.mapLine]
      rw [← PlacedText.text_dropNested, PlacedText.declarationsOf_text hnested,
        PlacedText.lineOf_text hhead hblank]

end PlacedFragment

namespace PlacedText

/-- The text of the first fragment. -/
def fragmentText (ts : PlacedText) : PlacedText := ts.takeWhile (!endsFragment ·.1)

/-- The text from the character that ends the first fragment on. -/
def fragmentRest (ts : PlacedText) : PlacedText := ts.dropWhile (!endsFragment ·.1)

/-- **The fragments of a text**, with their characters at their places. -/
def fragments (ts : PlacedText) : List PlacedFragment :=
  match _h : ts.fragmentRest with
  | [] => [.statement ts]
  | c :: rest =>
    if c.1 = '{' then .block ts.fragmentText (inBlock rest) :: fragments (afterBlock rest)
    else if c.1 = ';' then .statement ts.fragmentText :: fragments rest
    else fragments rest
termination_by ts.length
decreasing_by
  all_goals
    have h := List.length_dropWhile_le (!endsFragment ·.1) ts
    rw [← fragmentRest, _h, List.length_cons] at h
    first
      | exact Nat.lt_of_le_of_lt (afterBlock_isInfix rest).length_le h
      | exact h

section FragmentText

variable {ts rest : PlacedText} {c : Char × Nat}

theorem endsFragment_of_mem_fragmentText :
    ∀ c ∈ ts.fragmentText.text, endsFragment c = false := by
  intro c hc
  obtain ⟨d, hd, rfl⟩ := List.mem_map.mp hc
  simpa using List.mem_takeWhile_imp hd

theorem endsFragment_of_fragmentRest_nil (h : ts.fragmentRest = []) :
    ∀ c ∈ ts.text, endsFragment c = false := by
  intro c hc
  obtain ⟨d, hd, rfl⟩ := List.mem_map.mp hc
  simpa using List.dropWhile_eq_nil_iff.mp h d hd

theorem eq_of_fragmentRest (h : ts.fragmentRest = c :: rest) :
    ts = ts.fragmentText ++ c :: rest ∧ endsFragment c.1 = true := by
  constructor
  · rw [← h]
    exact List.takeWhile_append_dropWhile.symm
  · have hhead := List.head?_dropWhile_not (!endsFragment ·.1) ts
    rw [← fragmentRest, h] at hhead
    simpa using hhead

/-- A text without the places up to the end of its first fragment. -/
theorem text_of_fragmentRest (h : ts.fragmentRest = c :: rest) :
    ts.text = ts.fragmentText.text ++ c.1 :: rest.text := by
  rw [← text_cons, ← text_append, ← (eq_of_fragmentRest h).1]

end FragmentText

end PlacedText

/-- The text of the first fragment and the text after it are at their lines: no line break ends a
fragment. -/
theorem Traces.fragment {line : Nat} {ts rest : PlacedText} {c : Char × Nat}
    (h : Traces source line ts) (hend : ts.fragmentRest = c :: rest) :
    Traces source line ts.fragmentText ∧
      Traces source (line + newlines ts.fragmentText.text) rest := by
  obtain ⟨hts, hends⟩ := PlacedText.eq_of_fragmentRest hend
  have hc : c.1 ≠ '\n' := by
    intro hbreak
    rw [hbreak] at hends
    exact absurd hends (by decide)
  rw [hts] at h
  exact ⟨h.left, h.after hc⟩

/-- **The rules of a text are at the lines of their places.** -/
theorem PlacedText.flatMap_rules_fragments {line : Nat} {ts : PlacedText}
    (h : Traces source line ts) :
    (CssResources.fragments line ts.text).flatMap Fragment.rules =
      (ts.fragments.flatMap PlacedFragment.rules).map (Rule.mapLine (lineAt source)) := by
  have hmem {ts : PlacedText} : ∀ c ∈ ts.fragmentText.text, endsFragment c = false :=
    endsFragment_of_mem_fragmentText
  fun_induction fragments ts generalizing line with
  | case1 ts hend =>
    rw [fragments_last (endsFragment_of_fragmentRest_nil hend), List.flatMap_singleton,
      List.flatMap_singleton, PlacedFragment.rules_statement h.keepsLines]
  | case2 ts c rest hend hc ih =>
    obtain ⟨hhead, hrest⟩ := h.fragment hend
    rw [text_of_fragmentRest hend, hc, fragments_open hmem, List.flatMap_cons, List.flatMap_cons,
      List.map_append, ← text_inBlock, ← text_afterBlock,
      PlacedFragment.rules_block hhead.keepsLines hrest.inBlock, ih hrest.afterBlock]
  | case3 ts c rest hend _ hc ih =>
    obtain ⟨hlead, hrest⟩ := h.fragment hend
    rw [text_of_fragmentRest hend, hc, fragments_semicolon hmem, List.flatMap_cons,
      List.flatMap_cons, List.map_append, PlacedFragment.rules_statement hlead.keepsLines,
      ih hrest]
  | case4 ts c rest hend hopen hsemicolon ih =>
    have hends := endsFragment_iff.mp (eq_of_fragmentRest hend).2
    have hc : c.1 = '}' := hends.resolve_left (by simp [hopen, hsemicolon])
    rw [text_of_fragmentRest hend, hc, fragments_close hmem, ih (h.fragment hend).2]

/-! ### What stands at a place -/

/-- **A declaration stands at a place of a source**, which it has for a line: its property is
written there. -/
def Declaration.IsAtPlace (source : Text) (d : Declaration) : Prop :=
  ∃ name rest, name ≠ [] ∧ source.drop d.line = name ++ rest ∧
    d.property = Declaration.canonicalName name

/-- **A rule stands at a place of a source**, which it has for a line: its group of selectors
begins there, or its first declaration if it has no selectors. Its declarations stand at their
places, too. -/
structure Rule.IsAtPlace (source : Text) (r : Rule) : Prop where
  /-- The declarations stand at their places. -/
  declarations : ∀ d ∈ r.declarations, d.IsAtPlace source
  /-- A rule without selectors is where its first declaration is. -/
  loose : r.selectors = [] → r.declarations.head?.map Declaration.line = some r.line
  /-- A rule with selectors is where the first character of their group is. -/
  group : r.selectors ≠ [] → ∃ group c, selectorsOf group = r.selectors ∧
    group.head? = some c ∧ isBlank c = false ∧ source[r.line]? = some c

/-- A declaration is read from a text that begins with its property. -/
theorem Declaration.exists_name_of_ofText? {line : Nat} {t : Text} {d : Declaration}
    (h : ofText? line t = some d) :
    ∃ start name rest, t = start ++ (name ++ rest) ∧ isAllBlank start = true ∧ name ≠ [] ∧
      (∀ c ∈ name, isNameChar c = true) ∧ d.property = canonicalName name ∧ d.line = line := by
  rw [ofText?] at h
  obtain ⟨⟨before, after⟩, hsplit, h⟩ := Option.bind_eq_some_iff.mp h
  dsimp only at h
  split at h
  · simp at h
  · rename_i hvalid
    obtain rfl := Option.some.inj h
    simp only [Bool.or_eq_true, Bool.not_eq_true', not_or, List.isEmpty_iff, Bool.not_eq_false]
      at hvalid
    obtain ⟨start, stop, hstart, -, hbefore⟩ := exists_eq_append_trim before
    refine ⟨start, trim before, stop ++ ':' :: after, ?_, hstart, hvalid.1.1,
      List.all_eq_true.mp hvalid.2, rfl, rfl⟩
    rw [eq_of_splitOnce? hsplit]
    nth_rw 1 [hbefore]
    simp only [List.append_assoc]

namespace IsPlaced

variable {ts : PlacedText}

/-- The source goes on from the place of a character with this character. -/
theorem drop_eq_cons (h : IsPlaced source ts) {c : Char × Nat} (hc : c ∈ ts)
    (hblank : isBlank c.1 = false) : source.drop c.2 = c.1 :: source.drop (c.2 + 1) := by
  obtain ⟨hlt, hget⟩ := List.getElem?_eq_some_iff.mp (h.getElem?_eq hc hblank)
  rw [List.drop_eq_getElem_cons hlt, hget]

/-- **A name stands in the source in one piece.** -/
theorem exists_drop_eq {c : Char × Nat} {name : PlacedText} (h : IsPlaced source (c :: name))
    (hname : ∀ d ∈ c :: name, Declaration.isNameChar d.1 = true) :
    ∃ rest, source.drop c.2 = PlacedText.text (c :: name) ++ rest := by
  have hc := hname c (List.mem_cons_self ..)
  have hdrop : source.drop c.2 = c.1 :: source.drop (c.2 + 1) :=
    h.drop_eq_cons (List.mem_cons_self ..) (Declaration.isBlank_of_isNameChar hc)
  induction name generalizing c with
  | nil => exact ⟨_, hdrop⟩
  | cons d name ih =>
    have hd := hname d (List.mem_cons_of_mem c (List.mem_cons_self ..))
    have hnext : d.2 = c.2 + 1 := by
      rcases (List.isChain_cons.mp h.adjoins).1 d rfl with hnext | hblank | hblank | hsemicolon
      · exact hnext
      · simp [Declaration.isBlank_of_isNameChar hc] at hblank
      · simp [Declaration.isBlank_of_isNameChar hd] at hblank
      · rw [hsemicolon] at hc
        exact absurd hc (by decide)
    have htail : IsPlaced source (d :: name) := h.of_infix (List.suffix_cons c _).isInfix
    obtain ⟨rest, hrest⟩ := ih htail (fun e he => hname e (List.mem_cons_of_mem c he)) hd
      (htail.drop_eq_cons (List.mem_cons_self ..) (Declaration.isBlank_of_isNameChar hd))
    exact ⟨rest, by rw [hdrop, ← hnext, hrest]; rfl⟩

/-- **A declaration begins with its property.** -/
theorem isAtPlace_of_declaration? (h : IsPlaced source ts) {d : Declaration}
    (hd : ts.declaration? = some d) : d.IsAtPlace source ∧ d.line = ts.start := by
  obtain ⟨start, name, rest, htext, hstart, hne, hname, hproperty, hline⟩ :=
    Declaration.exists_name_of_ofText? hd
  refine ⟨?_, hline⟩
  obtain ⟨ss, us, rfl, rfl, hus⟩ := List.map_eq_append_iff.mp htext
  obtain ⟨ns, us, rfl, rfl, rfl⟩ := List.map_eq_append_iff.mp hus
  obtain ⟨c, ns, rfl⟩ := List.exists_cons_of_ne_nil (show ns ≠ [] by rintro rfl; exact hne rfl)
  have hchars : ∀ d ∈ c :: ns, Declaration.isNameChar d.1 = true := fun d hd =>
    hname d.1 (List.mem_map_of_mem hd)
  have hplaced : IsPlaced source (c :: ns) := h.of_infix (List.infix_append' _ _ _)
  obtain ⟨rest, hrest⟩ := hplaced.exists_drop_eq hchars
  have hfirst := Declaration.isBlank_of_isNameChar (hchars c (List.mem_cons_self ..))
  rw [List.cons_append, PlacedText.start_append hstart hfirst] at hline
  exact ⟨_, rest, hne, by rw [hline, hrest]; rfl, hproperty⟩

theorem isAtPlace_of_mem_declarations (h : IsPlaced source ts) {d : Declaration}
    (hd : d ∈ ts.declarations) : d.IsAtPlace source := by
  obtain ⟨segment, hsegment, hd⟩ := List.mem_filterMap.mp hd
  exact ((h.of_infix (PlacedText.isInfix_of_mem_pieces hsegment)).isAtPlace_of_declaration? hd).1

/-- **A text begins at its place with the first character that is left of it** after trimming. -/
theorem exists_head?_trim (h : IsPlaced source ts) (hblank : isAllBlank ts.text = false) :
    ∃ c, (trim ts.text).head? = some c ∧ isBlank c = false ∧ source[ts.start]? = some c := by
  obtain ⟨ss, c, us, rfl, hss, hc⟩ := PlacedText.exists_eq_append_of_isAllBlank hblank
  have htrim : trim (PlacedText.text (ss ++ c :: us)) = c.1 :: trimEnd (PlacedText.text us) := by
    rw [PlacedText.text_append, trim_blank_append hss, trim, PlacedText.text_cons,
      trimStart_eq_self_iff.mpr (by simp [hc]), ← List.singleton_append,
      trimEnd_append (by simp [hc]), List.singleton_append]
  refine ⟨c.1, by rw [htrim, List.head?_cons], hc, ?_⟩
  rw [PlacedText.start_append hss hc]
  exact h.getElem?_eq (by simp) hc

end IsPlaced

namespace PlacedFragment

/-- What a fragment is made of is placed in the source; its block is even without the rules nested
in it. -/
def IsPlaced (source : Text) : PlacedFragment → Prop
  | statement ts => CssResources.IsPlaced source ts
  | block head body =>
    CssResources.IsPlaced source head ∧ CssResources.IsPlaced source (body.dropNested none)

theorem isAtPlace_of_mem_rules {f : PlacedFragment} (h : f.IsPlaced source) {r : Rule}
    (hr : r ∈ f.rules) : r.IsAtPlace source := by
  cases f with
  | statement ts =>
    rw [rules] at hr
    split at hr
    · simp at hr
    · split at hr
      · simp at hr
      · rename_i d hd
        obtain rfl := List.mem_singleton.mp hr
        obtain ⟨hplace, hline⟩ := CssResources.IsPlaced.isAtPlace_of_declaration? h hd
        exact ⟨by simpa using hplace, fun _ => congrArg some hline, fun h => absurd rfl h⟩
  | block head body =>
    rw [rules] at hr
    split at hr
    · simp at hr
    · split at hr
      · simp at hr
      · rename_i hne
        obtain rfl := List.mem_singleton.mp hr
        refine ⟨fun d hd => h.2.isAtPlace_of_mem_declarations hd, fun h => absurd h hne,
          fun hselectors => ?_⟩
        obtain ⟨c, hhead, hc, hplace⟩ :=
          h.1.exists_head?_trim (isAllBlank_of_selectorsOf hselectors)
        exact ⟨trim head.text, c, rfl, hhead, hc, hplace⟩

end PlacedFragment

theorem PlacedText.isPlaced_of_mem_fragments {line : Nat} {ts : PlacedText}
    (h : Traces source line ts) {f : PlacedFragment} (hf : f ∈ ts.fragments) :
    f.IsPlaced source := by
  fun_induction fragments ts generalizing line with
  | case1 ts hend =>
    obtain rfl := List.mem_singleton.mp hf
    exact h.toIsPlaced
  | case2 ts c rest hend hc ih =>
    obtain ⟨hhead, hrest⟩ := h.fragment hend
    rcases List.mem_cons.mp hf with rfl | hf
    · exact ⟨hhead.toIsPlaced, (hrest.inBlock.dropNested none).toIsPlaced⟩
    · exact ih hrest.afterBlock hf
  | case3 ts c rest hend _ hc ih =>
    obtain ⟨hlead, hrest⟩ := h.fragment hend
    rcases List.mem_cons.mp hf with rfl | hf
    · exact hlead.toIsPlaced
    · exact ih hrest hf
  | case4 ts c rest hend hopen hsemicolon ih => exact ih (h.fragment hend).2 hf

namespace Rule

/-- Merging leaves rules where they are. -/
theorem isAtPlace_of_mem_mergeLoose {rs : List Rule} (h : ∀ r ∈ rs, r.IsAtPlace source) :
    ∀ r ∈ mergeLoose rs, r.IsAtPlace source := by
  refine forall_mem_mergeLoose (fun r s hr _ hrs hss => ?_) h
  refine ⟨fun d hd => ?_, fun _ => ?_, fun hne => absurd hr hne⟩
  · exact (List.mem_append.mp hd).elim (hrs.declarations d) (hss.declarations d)
  · obtain ⟨d, hd, hline⟩ := Option.map_eq_some_iff.mp (hrs.loose hr)
    rw [List.head?_append, hd]
    exact congrArg some hline

end Rule

/-! ### The rules of a stylesheet -/

/-- **The rules of a stylesheet by place**: they and their declarations have for lines the places
in the source where they begin. -/
def rulesByPlace (source : Text) : List Rule :=
  Rule.mergeLoose ((PlacedText.fragments (placedFrom false 0 source)).flatMap PlacedFragment.rules)

/-- **The lines of rules and declarations are exact.** The rules of a stylesheet are those read by
place, with the line of each place for it: one more than the line breaks that the source has in
front of the place. Each declaration has its property at its place in the source, each rule the
first character of its group of selectors, or its first declaration if it has no selectors. -/
theorem rules_ofText_at_places (source : Text) :
    (Stylesheet.ofText source).rules = (rulesByPlace source).map (Rule.mapLine (lineAt source)) ∧
      ∀ r ∈ rulesByPlace source, r.IsAtPlace source := by
  have htraces := traces_placedFrom source
  constructor
  · have htext : stripComments source = PlacedText.text (placedFrom false 0 source) :=
      (text_placedFrom false 0 source).symm
    rw [rulesByPlace, ← Rule.mergeLoose_map_mapLine, ← PlacedText.flatMap_rules_fragments htraces,
      ← htext]
    rfl
  · refine Rule.isAtPlace_of_mem_mergeLoose fun r hr => ?_
    obtain ⟨f, hf, hr⟩ := List.mem_flatMap.mp hr
    exact PlacedFragment.isAtPlace_of_mem_rules (PlacedText.isPlaced_of_mem_fragments htraces hf) hr

/-- A rule after a comment, with a declaration after a nested rule: their places and their lines. -/
example :
    let source := "/* a\n */ p \x7b\n q \x7b x: 1\n \x7d y: 2".toList
    let positions (rs : List Rule) := rs.map fun r => (r.line, r.declarations.map Declaration.line)
    positions (rulesByPlace source) = [(9, [26])] ∧
      positions (Stylesheet.ofText source).rules = [(2, [4])] := by
  cbv

end CssResources
