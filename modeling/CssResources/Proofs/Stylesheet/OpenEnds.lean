import CssResources.Proofs.Stylesheet.NestedRules

/-!
# Texts that end too early

A text may end where more was to come: in a block, in a block within a block, or at the top level
without a semicolon. **It is read as if the missing marks stood at its end**
(`CssResources.ofText_append_ending`): a closing brace for each block that is open, or a semicolon
(`CssResources.ReaderPlace.ending?`).

| scanner | what the missing marks change |
|---|---|
| `CssResources.fragments` at the top level | a statement without text comes after the last one |
| `CssResources.splitBlock` | all braces but the last one come to stand in the last block |
| `CssResources.dropNested` | nothing: these braces close nested rules, which are dropped |

The last line of the table takes an induction along the segments of the block, as the nested rule
that is open need not be the first one (`CssResources.dropNested_append_replicate`); how many rules
are open within it is then the business of `CssResources.splitBlock` again. In quotes a brace closes
nothing, so nothing is known to be missing after a text that leaves a quote open in a block.
-/

namespace CssResources

/-! ### Blocks that are left open -/

/-- **A text either stays in the block that it begins in, or begins with the rest of it** and the
brace that closes it. -/
theorem exists_of_depthAtEnd?_eq_none {depth : Nat} {quote : Option Char} {t : Text}
    (h : Brackets.braces.depthAtEnd? depth (unquoted quote t) = none) :
    ∃ body rest, t = body ++ '}' :: rest ∧ quoteAtEnd quote body = none ∧
      Brackets.braces.depthAtEnd? depth (unquoted quote body) = some 0 := by
  induction t generalizing depth quote with
  | nil => simp at h
  | cons c t ih =>
    cases quote with
    | none =>
      rw [unquoted_none_cons, Brackets.depthAtEnd?_cons] at h
      cases hd : Brackets.braces.after? depth c with
      | none =>
        obtain ⟨rfl, rfl⟩ : c = '}' ∧ depth = 0 := by
          simp only [Brackets.after?, Brackets.braces, List.mem_singleton] at hd
          grind
        exact ⟨[], t, rfl, rfl, rfl⟩
      | some d =>
        rw [hd, Option.bind_some] at h
        obtain ⟨body, rest, rfl, hquotes, hbraces⟩ := ih h
        refine ⟨c :: body, rest, rfl, hquotes, ?_⟩
        rw [unquoted_none_cons, Brackets.depthAtEnd?_cons, hd, Option.bind_some, hbraces]
    | some q =>
      obtain ⟨body, rest, rfl, hquotes, hbraces⟩ := ih h
      exact ⟨c :: body, rest, rfl, hquotes, hbraces⟩

/-- **The block that a text begins in ends in it, or is open at its end.** -/
theorem closesBlocks_or_open (t : Text) :
    (∃ body rest, ClosesBlocks body ∧ t = body ++ '}' :: rest) ∨
      ∃ depth, Brackets.braces.depthAtEnd? 0 (unquoted none t) = some depth := by
  cases h : Brackets.braces.depthAtEnd? 0 (unquoted none t) with
  | none =>
    obtain ⟨body, rest, ht, hquotes, hbraces⟩ := exists_of_depthAtEnd?_eq_none h
    exact Or.inl ⟨body, rest, ⟨hquotes, hbraces⟩, ht⟩
  | some depth => exact Or.inr ⟨depth, rfl⟩

/-- The last of so many closing braces ends the block. -/
theorem splitBlock_replicate (depth : Nat) :
    splitBlock depth none (List.replicate (depth + 1) '}') = (List.replicate depth '}', []) := by
  induction depth with
  | zero => rfl
  | succ depth ih =>
    have hblocks : blocksAfter none (depth + 1) '}' = depth := rfl
    have hquote : quoteAfter none '}' = none := rfl
    rw [List.replicate_succ, splitBlock, if_neg (by simp), hblocks, hquote, ih]
    rfl

section Open

variable {depth : Nat} {t : Text}
  (h : Brackets.braces.depthAtEnd? 0 (unquoted none t) = some depth)
include h

/-- **A block that is open at the end of a text goes on to there.** -/
theorem splitBlock_of_open : splitBlock 0 none t = (t, []) := by
  simpa using splitBlock_append h []

/-- **A block that is open at the end of a text ends with the braces** that are put there. -/
theorem splitBlock_append_replicate (hquotes : quoteAtEnd none t = none) :
    splitBlock 0 none (t ++ List.replicate (depth + 1) '}') =
      (t ++ List.replicate depth '}', []) := by
  rw [splitBlock_append h, hquotes, splitBlock_replicate]

end Open

/-! ### Nested rules that are left open -/

/-- A cut is made where it was, whatever comes after the text. -/
theorem cutSegment_append_right {quote quote' : Option Char} {t lead rest : Text} {c : Char}
    (h : cutSegment quote t = (lead, quote', c :: rest)) (u : Text) :
    cutSegment quote (t ++ u) = (lead, quote', c :: (rest ++ u)) := by
  induction t generalizing quote lead with
  | nil => simp [cutSegment] at h
  | cons x t ih =>
    rw [List.cons_append, cutSegment]
    rw [cutSegment] at h
    split at h
    · rename_i hx
      simp only [Prod.mk.injEq, List.cons.injEq] at h
      obtain ⟨rfl, rfl, rfl, rfl⟩ := h
      exact if_pos hx
    · rename_i hx
      simp only [Prod.mk.injEq] at h
      obtain ⟨rfl, hrest⟩ := h
      rw [if_neg hx, ih (Prod.ext rfl hrest)]

/-- No brace in front of a cut opens a block. -/
theorem not_mem_of_cutSegment {quote quote' : Option Char} {t lead rest : Text}
    (h : cutSegment quote t = (lead, quote', rest)) : '{' ∉ unquoted quote lead := by
  induction t generalizing quote lead with
  | nil =>
    obtain ⟨rfl, -⟩ := Prod.mk.inj h
    simp
  | cons x t ih =>
    rw [cutSegment] at h
    split at h
    · obtain ⟨rfl, -⟩ := Prod.mk.inj h
      simp
    · rename_i hx
      simp only [Prod.mk.injEq] at h
      obtain ⟨rfl, hrest⟩ := h
      have hlead := ih (Prod.ext rfl hrest)
      cases quote with
      | none =>
        rw [unquoted_none_cons, List.mem_cons, not_or]
        exact ⟨fun hbrace => hx (Or.inr ⟨rfl, hbrace.symm⟩), hlead⟩
      | some q => exact hlead

/-- In front of a cut no block is open. -/
theorem depthAtEnd?_of_cutSegment {quote quote' : Option Char} {t lead rest u : Text} {depth : Nat}
    (hcut : cutSegment quote t = (lead, quote', rest))
    (h : Brackets.braces.depthAtEnd? 0 (unquoted quote lead ++ u) = some depth) :
    Brackets.braces.depthAtEnd? 0 u = some depth := by
  rw [Brackets.depthAtEnd?_append] at h
  obtain ⟨d, hd, h⟩ := Option.bind_eq_some_iff.mp h
  have hopens : ∀ c ∈ unquoted quote lead, c ∉ Brackets.braces.opens := fun c hc hopen =>
    not_mem_of_cutSegment hcut (List.mem_singleton.mp hopen ▸ hc)
  obtain rfl : d = 0 := Nat.le_zero.mp (Brackets.depthAtEnd?_le hopens hd)
  exact h

/-- Closing braces are no line breaks. -/
theorem lineBreaks_append_replicate (t : Text) (depth : Nat) :
    lineBreaks (t ++ List.replicate depth '}') = lineBreaks t := by
  have hbraces : (List.replicate depth '}').filter (· == '\n') = [] :=
    List.filter_eq_nil_iff.mpr fun c hc => by simp [List.eq_of_mem_replicate hc]
  rw [lineBreaks, List.filter_append, hbraces, List.append_nil, lineBreaks]

theorem newlines_append_replicate (t : Text) (depth : Nat) :
    newlines (t ++ List.replicate depth '}') = newlines t := by
  have hbraces : newlines (List.replicate depth '}') = 0 :=
    List.count_eq_zero.mpr fun hmem => absurd (List.eq_of_mem_replicate hmem) (by decide)
  rw [newlines_append, hbraces, Nat.add_zero]

/-- **Braces that close the blocks which are open in a block change nothing** about what is left of
it without its nested rules, nor about their reports. -/
theorem dropNested_append_replicate {quote : Option Char} {t : Text} {depth : Nat} (line : Nat)
    (hquote : quote ≠ some ';') (hend : quoteAtEnd quote t = none)
    (h : Brackets.braces.depthAtEnd? 0 (unquoted quote t) = some depth) :
    dropNested line quote (t ++ List.replicate depth '}') = dropNested line quote t := by
  fun_induction dropNested line quote t with
  | case1 line quote t lead quote' hcut =>
    -- no nested rule is open
    have ht : t = lead := by simpa [hcut] using (cutSegment_append quote t).symm
    have hzero := depthAtEnd?_of_cutSegment (u := []) hcut (by rwa [List.append_nil, ← ht])
    obtain rfl : 0 = depth := Option.some.inj hzero
    rw [List.replicate_zero, List.append_nil, dropNested_last line hcut]
  | case2 line quote t lead quote' rest p hcut ih =>
    obtain ⟨rfl, hquote', -⟩ := eq_of_cutSegment hcut
    have hne : quote' ≠ some ';' :=
      hquote' ▸ quoteAtEnd_ne_some hquote (by decide) (by decide) lead
    rw [quoteAtEnd_append, ← hquote', quoteAtEnd_cons, quoteAfter_semicolon hne] at hend
    rw [unquoted_append, ← hquote'] at h
    have hrest : Brackets.braces.depthAtEnd? 0 (unquoted quote' rest) = some depth := by
      have hsemicolon := depthAtEnd?_of_cutSegment hcut h
      cases quote' with
      | none => exact hsemicolon
      | some q => rwa [unquoted_some_cons, quoteAfter_semicolon hne] at hsemicolon
    rw [dropNested_semicolon line (cutSegment_append_right hcut _), ih hne hend hrest]
  | case3 line quote t lead quote' c rest hcut hc nested p ih =>
    obtain ⟨rfl, hquote', hmark⟩ := eq_of_cutSegment hcut
    obtain ⟨rfl, rfl⟩ := hmark.resolve_left hc
    have hquote : quoteAfter none '{' = none := rfl
    rw [quoteAtEnd_append, ← hquote', quoteAtEnd_cons, hquote] at hend
    rw [unquoted_append, ← hquote'] at h
    have hinside : Brackets.braces.depthAtEnd? 1 (unquoted none rest) = some depth :=
      depthAtEnd?_of_cutSegment hcut h
    rw [dropNested_block line (cutSegment_append_right hcut _)]
    rcases closesBlocks_or_open rest with ⟨body, after, hbody, rfl⟩ | ⟨d, hopen⟩
    · -- the nested rule ends in the text, and is passed over
      have hnested : nested = (body, after) := hbody.splitBlock_append after
      rw [quoteAtEnd_append, hbody.quotes] at hend
      have hafter : Brackets.braces.depthAtEnd? 0 (unquoted none after) = some depth := by
        have hbraces := Brackets.depthAtEnd?_add hbody.braces 1
        rw [unquoted_append, hbody.quotes, Brackets.depthAtEnd?_append, hbraces] at hinside
        exact hinside
      have hsplit : splitBlock 0 none (body ++ '}' :: after ++ List.replicate depth '}') =
          (body, after ++ List.replicate depth '}') := by
        rw [List.append_assoc, List.cons_append, hbody.splitBlock_append]
      rw [hnested] at ih
      rw [hsplit, ih (by simp) hend hafter]
      simp only [p, hnested]
    · -- the nested rule is the one that is open
      have hnested : nested = (rest, []) := splitBlock_of_open hopen
      have hdepth := Brackets.depthAtEnd?_add hopen 1
      obtain rfl : d + 1 = depth := Option.some.inj (hdepth.symm.trans hinside)
      rw [splitBlock_append_replicate hopen hend, lineBreaks_append_replicate,
        newlines_append_replicate]
      simp only [p, hnested]

/-! ### The place at the end -/

namespace ReaderPlace

/-- In a text that stays in a block, braces and quotes are counted as everywhere. -/
theorem inside_atEnd {depth depth' : Nat} {quote : Option Char} {t : Text}
    (h : Brackets.braces.depthAtEnd? depth (unquoted quote t) = some depth') :
    (inside depth quote).atEnd t = inside depth' (quoteAtEnd quote t) := by
  induction t generalizing depth quote with
  | nil =>
    obtain rfl : depth = depth' := Option.some.inj h
    rfl
  | cons c t ih =>
    rw [atEnd_cons, after, quoteAtEnd_cons]
    cases quote with
    | none =>
      rw [unquoted_none_cons, Brackets.depthAtEnd?_cons] at h
      obtain ⟨d, hd, h⟩ := Option.bind_eq_some_iff.mp h
      obtain ⟨hblocks, hclose⟩ := blocksAfter_of_after? hd
      rw [if_neg fun hc => hclose hc.2, hblocks, ih h]
    | some q =>
      rw [if_neg fun hc => absurd hc.1 (by simp)]
      exact ih h

/-- **What is missing at the end of a text**, by the place there: a closing brace for each block
that is open, or a semicolon at the top level. Nothing helps in quotes. -/
def ending? : ReaderPlace → Option Text
  | top _ => some [';']
  | inside depth none => some (List.replicate (depth + 1) '}')
  | inside _ (some _) => none

end ReaderPlace

/-! ### Fragments that are left open -/

theorem fragments_nil (line : Nat) : fragments line [] = [.statement line []] :=
  fragments_last (by simp) line

/-- **At the top level a semicolon leaves the fragments as they are**, and one without text comes
after them. -/
theorem exists_fragments_of_top {t : Text} {blank : Bool}
    (h : (ReaderPlace.top true).atEnd t = .top blank) (line : Nat) :
    ∃ last, fragments line (t ++ [';']) = fragments line t ++ [.statement last []] := by
  obtain ⟨fs, line', lead, hlead, -, -, happend⟩ := exists_fragments_append_of_top h line
  have hself : fragments line t = fs ++ [.statement (lineOf line' lead) (trim lead)] := by
    simpa [fragments_last hlead] using happend []
  refine ⟨line' + newlines lead, ?_⟩
  rw [happend, fragments_semicolon hlead, fragments_nil, hself, List.append_assoc]
  rfl

/-- **Reading goes on in the block that is open at the end of a text**, with its beginning and after
the fragments that end in the text. -/
theorem exists_fragments_append_of_inside {s : Text} {depth : Nat} {quote : Option Char}
    (h : (ReaderPlace.top true).atEnd s = .inside depth quote) (line : Nat) :
    ∃ fs headLine head bodyLine body, quoteAtEnd none body = quote ∧
      Brackets.braces.depthAtEnd? 0 (unquoted none body) = some depth ∧
      ∀ t, fragments line (s ++ t) =
        fs ++ .block headLine head bodyLine (splitBlock 0 none (body ++ t)).1 ::
          fragments (bodyLine + newlines (splitBlock 0 none (body ++ t)).1)
            (splitBlock 0 none (body ++ t)).2 := by
  induction s using fragments_induction generalizing line with
  | last s hs =>
    rw [ReaderPlace.top_atEnd hs] at h
    exact absurd h (by simp)
  | block lead rest hlead ih =>
    rw [ReaderPlace.atEnd_append, ReaderPlace.top_atEnd hlead, ReaderPlace.atEnd_cons] at h
    have hplace : (ReaderPlace.inside 0 none).atEnd rest = .inside depth quote := h
    rcases closesBlocks_or_open rest with ⟨body, after, hbody, rfl⟩ | ⟨d, hopen⟩
    · have hclose : (ReaderPlace.inside 0 none).after '}' = .top true := rfl
      rw [ReaderPlace.atEnd_append, ReaderPlace.inside_atEnd hbody.braces, hbody.quotes,
        ReaderPlace.atEnd_cons, hclose] at hplace
      rw [hbody.splitBlock_append] at ih
      obtain ⟨fs, headLine, head, bodyLine, inside, hquotes, hbraces, happend⟩ :=
        ih hplace (line + newlines lead + newlines body)
      refine ⟨.block (lineOf line lead) (trim lead) (line + newlines lead) body :: fs, headLine,
        head, bodyLine, inside, hquotes, hbraces, fun t => ?_⟩
      rw [List.append_assoc, List.cons_append, List.append_assoc, List.cons_append,
        fragments_block hlead hbody, happend, List.cons_append]
    · rw [ReaderPlace.inside_atEnd hopen] at hplace
      obtain ⟨rfl, hquotes⟩ := ReaderPlace.inside.inj hplace
      refine ⟨[], lineOf line lead, trim lead, line + newlines lead, rest, hquotes, hopen,
        fun t => ?_⟩
      rw [List.append_assoc, List.cons_append, fragments_open hlead, List.nil_append]
  | statement lead rest hlead ih =>
    rw [ReaderPlace.atEnd_append, ReaderPlace.top_atEnd hlead, ReaderPlace.atEnd_cons] at h
    obtain ⟨fs, headLine, head, bodyLine, body, hquotes, hbraces, happend⟩ :=
      ih h (line + newlines lead)
    refine ⟨.statement (lineOf line lead) (trim lead) :: fs, headLine, head, bodyLine, body,
      hquotes, hbraces, fun t => ?_⟩
    rw [List.append_assoc, List.cons_append, fragments_semicolon hlead, happend, List.cons_append]
  | stray lead rest hlead ih =>
    rw [ReaderPlace.atEnd_append, ReaderPlace.top_atEnd hlead, ReaderPlace.atEnd_cons] at h
    obtain ⟨fs, headLine, head, bodyLine, body, hquotes, hbraces, happend⟩ :=
      ih h (line + newlines lead)
    refine ⟨fs, headLine, head, bodyLine, body, hquotes, hbraces, fun t => ?_⟩
    rw [List.append_assoc, List.cons_append, fragments_close hlead, happend]

/-- **In a block the missing braces go to the last fragment but one**: it is the block that is open,
and all of them but one come to stand in it. -/
theorem exists_fragments_of_inside {t : Text} {depth : Nat}
    (h : (ReaderPlace.top true).atEnd t = .inside depth none) (line : Nat) :
    ∃ fs headLine head bodyLine body last,
      quoteAtEnd none body = none ∧
      Brackets.braces.depthAtEnd? 0 (unquoted none body) = some depth ∧
      fragments line t = fs ++ [.block headLine head bodyLine body, .statement last []] ∧
      fragments line (t ++ List.replicate (depth + 1) '}') =
        fs ++ [.block headLine head bodyLine (body ++ List.replicate depth '}'),
          .statement last []] := by
  obtain ⟨fs, headLine, head, bodyLine, body, hquotes, hbraces, happend⟩ :=
    exists_fragments_append_of_inside h line
  refine ⟨fs, headLine, head, bodyLine, body, bodyLine + newlines body, hquotes, hbraces, ?_, ?_⟩
  · simpa [splitBlock_of_open hbraces, fragments_nil] using happend []
  · rw [happend, splitBlock_append_replicate hbraces hquotes, newlines_append_replicate,
      fragments_nil]

/-! ### The theorem -/

/-- What is missing at the end is no part of a comment. -/
theorem stripComments_append_ending {s ending : Text} (hs : endsInComment false s = false)
    {place : ReaderPlace} (h : ending ∈ place.ending?) :
    stripComments (s ++ ending) = stripComments s ++ ending := by
  have hmarks : ∀ c ∈ ending, c = ';' ∨ c = '}' := by
    match place, h with
    | .top _, h =>
      obtain rfl := Option.some.inj h
      simp
    | .inside depth none, h =>
      obtain rfl := Option.some.inj h
      exact fun c hc => Or.inr (List.eq_of_mem_replicate hc)
  have hnot : '/' ∉ ending := fun hslash => by simpa using hmarks _ hslash
  have hhead : ending.head? ≠ some '*' := fun hstar => by
    simpa using hmarks _ (List.mem_of_head? hstar)
  rw [stripComments, stripCommentsFrom_append hs (Or.inr hhead),
    (isUncommented_of_not_mem hnot).stripComments_eq, stripComments]

/-- **A text that ends too early is read as if it did not.** Whatever a text is that ends outside
comments, and wherever the reader is at its end – in a block, in a rule nested in it, in a block
that is skipped, or at the top level –, what is missing there changes neither the rules nor the
reports. -/
theorem ofText_append_ending {s ending : Text} (hs : endsInComment false s = false)
    (h : ending ∈ ((ReaderPlace.top true).atEnd (stripComments s)).ending?) :
    Stylesheet.ofText (s ++ ending) = Stylesheet.ofText s := by
  have hstrip := stripComments_append_ending hs h
  suffices hfragments :
      (Stylesheet.fragmentsOf (s ++ ending)).flatMap Fragment.rules =
          (Stylesheet.fragmentsOf s).flatMap Fragment.rules ∧
        (Stylesheet.fragmentsOf (s ++ ending)).flatMap Fragment.diagnostics =
          (Stylesheet.fragmentsOf s).flatMap Fragment.diagnostics by
    rw [Stylesheet.ofText, hfragments.1, hfragments.2, Stylesheet.ofText]
  rw [Stylesheet.fragmentsOf, Stylesheet.fragmentsOf, hstrip]
  cases hplace : (ReaderPlace.top true).atEnd (stripComments s) with
  | top blank =>
    rw [hplace] at h
    obtain rfl := Option.some.inj h
    obtain ⟨last, happend⟩ := exists_fragments_of_top hplace 1
    rw [happend, List.flatMap_append, List.flatMap_append]
    exact ⟨List.append_nil _, List.append_nil _⟩
  | inside depth quote =>
    rw [hplace] at h
    cases quote with
    | some q => simp [ReaderPlace.ending?] at h
    | none =>
      obtain rfl := Option.some.inj h
      obtain ⟨fs, headLine, head, bodyLine, body, last, hquotes, hbraces, hread, happend⟩ :=
        exists_fragments_of_inside hplace 1
      have hnested := dropNested_append_replicate bodyLine (by simp) hquotes hbraces
      have hrules : (Fragment.block headLine head bodyLine
          (body ++ List.replicate depth '}')).rules =
          (Fragment.block headLine head bodyLine body).rules := by
        rw [Fragment.rules, hnested, Fragment.rules]
      have hdiagnostics : (Fragment.block headLine head bodyLine
          (body ++ List.replicate depth '}')).diagnostics =
          (Fragment.block headLine head bodyLine body).diagnostics := by
        rw [Fragment.diagnostics, hnested, Fragment.diagnostics]
      rw [hread, happend]
      simp only [List.flatMap_append, List.flatMap_cons, hrules, hdiagnostics, and_self]

/-- A text with a stray brace and a brace in quotes, which ends two blocks deep in a block. -/
def cutOff : Text := "\x7d .a \x7b b: '\x7d'; c \x7b\x7d @media d \x7b e \x7b f: 0".toList

theorem ofText_append_ending_cutOff :
    (endsInComment false cutOff = false ∧
        (ReaderPlace.top true).atEnd (stripComments cutOff) = .inside 2 none ∧
        Stylesheet.ofText (cutOff ++ "\x7d\x7d\x7d".toList) = Stylesheet.ofText cutOff) ∧
      (ReaderPlace.top true).atEnd (stripComments "--x: 1; --y: 2".toList) = .top false ∧
      Stylesheet.ofText ("--x: 1; --y: 2".toList ++ ";".toList) =
        Stylesheet.ofText "--x: 1; --y: 2".toList := by
  have hcutOff : (ReaderPlace.top true).atEnd (stripComments cutOff) = .inside 2 none := by decide
  have htop : (ReaderPlace.top true).atEnd (stripComments "--x: 1; --y: 2".toList) = .top false := by
    decide
  exact ⟨⟨by decide, hcutOff, ofText_append_ending (by decide) (by rw [hcutOff]; rfl)⟩, htop,
    ofText_append_ending (by decide) (by rw [htop]; rfl)⟩

/-- In quotes a brace closes nothing: it becomes a part of the value. -/
example :
    (Stylesheet.ofText "a \x7b b: 'c".toList).rules =
        [⟨["a".toList], [⟨"b".toList, "'c".toList, 1⟩], 1⟩] ∧
      (Stylesheet.ofText "a \x7b b: 'c\x7d".toList).rules =
        [⟨["a".toList], [⟨"b".toList, "'c\x7d".toList, 1⟩], 1⟩] := by
  decide +kernel

end CssResources
