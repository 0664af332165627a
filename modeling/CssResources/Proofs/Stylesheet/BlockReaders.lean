import CssResources.Proofs.Checked
import CssResources.Proofs.Stylesheet.NestedRules

/-!
# Blocks read character by character

A block is read in two steps: its end is looked for (`CssResources.splitBlock`), and then the rules
nested in it are dropped (`CssResources.dropNested`). Both can be done **in one pass**, which keeps
the line, and counts braces only while it skips a nested block:

| pass | what it does | what it comes to |
|---|---|---|
| `CssResources.skipBlock` | skips to the end of the block | `CssResources.skipBlock_eq` |
| `CssResources.keepBlock` | keeps the declarations of the block | `CssResources.keepBlock_eq` |

The second pass takes away again what it has kept since the last semicolon, when it meets the block
of a nested rule. So what it has kept is at any time a row of whole segments, then line breaks that
dropped rules have left, and then the beginning of a segment, which alone is still to be decided
(`CssResources.BlockProgress`). That a nested block is skipped by the first pass is no restriction:
where it ends, the block around it is looked through as if it had not been there
(`CssResources.splitBlock_succ`).

The number of open braces is checked wherever it is made smaller
(`CssResources.predecessor`); it never goes below zero, whatever the text.
-/

namespace CssResources

/-! ### Reading on -/

/-- **A place to read on from**: its line, and the text from there on. -/
structure Cursor where
  /-- The line of the place. -/
  line : Nat
  /-- What is left to be read. -/
  rest : Text
  deriving DecidableEq, Repr

/-- The line after one more character. -/
def lineAfter (line : Nat) (c : Char) : Nat := if c = '\n' then line + 1 else line

theorem lineAfter_add (line : Nat) (c : Char) (t : Text) :
    lineAfter line c + newlines t = line + newlines (c :: t) := by
  rw [lineAfter, newlines, newlines, List.count_cons]
  split
  · rename_i hc
    rw [hc]
    simp only [beq_self_eq_true, if_true]
    omega
  · rename_i hc
    rw [if_neg (by simpa using hc), Nat.add_zero]

theorem lineAfter_of_ne {c : Char} (hc : c ≠ '\n') (line : Nat) : lineAfter line c = line :=
  if_neg hc

/-! ### Blocks that are skipped -/

/-- **Skips to the brace that closes the block just opened**, with further blocks and a quote
open. -/
def skipBlock (depth : Nat) (quote : Option Char) (line : Nat) : Text → Except Fault Cursor
  | [] => return ⟨line, []⟩
  | c :: t =>
    let next := lineAfter line c
    if quote.isSome then skipBlock depth (quoteAfter quote c) next t
    else if c = '{' then skipBlock (depth + 1) none next t
    else if c = '}' then
      if depth = 0 then return ⟨next, t⟩
      else do
        let depth ← predecessor depth
        skipBlock depth none next t
    else skipBlock depth (quoteAfter none c) next t

section Step

variable {depth : Nat} {quote : Option Char} {c : Char}

/-- A character belongs to a block unless it is the brace that closes it. -/
theorem splitBlock_cons (h : ¬(quote = none ∧ c = '}' ∧ depth = 0)) (t : Text) :
    splitBlock depth quote (c :: t) =
      (c :: (splitBlock (blocksAfter quote depth c) (quoteAfter quote c) t).1,
        (splitBlock (blocksAfter quote depth c) (quoteAfter quote c) t).2) := by
  rw [splitBlock, if_neg h]

/-- Outside nested blocks, it is enough that the character is no brace. -/
theorem splitBlock_cons_of_inside (h : ¬(quote = none ∧ (c = '}' ∨ c = '{'))) (t : Text) :
    splitBlock 0 quote (c :: t) =
      (c :: (splitBlock 0 (quoteAfter quote c) t).1, (splitBlock 0 (quoteAfter quote c) t).2) := by
  have hblocks : blocksAfter quote 0 c = 0 := by
    cases quote with
    | some q => rfl
    | none =>
      obtain ⟨hclosing, hopening⟩ : c ≠ '}' ∧ c ≠ '{' := by simpa using h
      simp [blocksAfter, hclosing, hopening]
  rw [splitBlock_cons fun hc => h ⟨hc.1, .inl hc.2.1⟩, hblocks]

/-- **A character that does not close the block is skipped**, and the number of open blocks never
goes below zero. -/
theorem skipBlock_cons (h : ¬(quote = none ∧ c = '}' ∧ depth = 0)) (line : Nat) (t : Text) :
    skipBlock depth quote line (c :: t) =
      skipBlock (blocksAfter quote depth c) (quoteAfter quote c) (lineAfter line c) t := by
  rw [skipBlock, blocksAfter]
  cases quote with
  | some q => rfl
  | none =>
    rcases Decidable.em (c = '{') with rfl | hopening
    · rfl
    rcases Decidable.em (c = '}') with rfl | hclosing
    · have hdepth : depth ≠ 0 := fun hzero => h ⟨rfl, rfl, hzero⟩
      simp only [Option.isSome_none, Bool.false_eq_true, if_false, if_neg hopening, if_true,
        if_neg hdepth, predecessor_of_ne_zero hdepth, ok_bind]
      rfl
    · simp only [Option.isSome_none, Bool.false_eq_true, if_false, if_neg hopening,
        if_neg hclosing]

/-- More open blocks stay open. -/
theorem blocksAfter_succ (h : ¬(quote = none ∧ c = '}' ∧ depth = 0)) :
    blocksAfter quote (depth + 1) c = blocksAfter quote depth c + 1 := by
  simp only [blocksAfter]
  cases quote with
  | some q => rfl
  | none => grind

end Step

/-- **A block is skipped to its end**, and its line breaks are counted. -/
theorem skipBlock_eq (depth : Nat) (quote : Option Char) (line : Nat) (t : Text) :
    skipBlock depth quote line t =
      .ok ⟨line + newlines (splitBlock depth quote t).1, (splitBlock depth quote t).2⟩ := by
  induction t generalizing depth quote line with
  | nil => rfl
  | cons c t ih =>
    by_cases h : quote = none ∧ c = '}' ∧ depth = 0
    · obtain ⟨rfl, rfl, rfl⟩ := h
      rfl
    · rw [skipBlock_cons h, splitBlock_cons h, ih, lineAfter_add]

theorem length_rest_of_skipBlock {depth : Nat} {quote : Option Char} {line : Nat} {t : Text}
    {after : Cursor} (h : skipBlock depth quote line t = .ok after) :
    after.rest.length ≤ t.length := by
  rw [skipBlock_eq] at h
  obtain rfl := Except.ok.inj h
  exact length_splitBlock_snd_le depth quote t

/-- **The block around a nested one ends where it ends after the nested one.** -/
theorem splitBlock_succ (depth : Nat) (quote : Option Char) (t : Text) :
    (splitBlock (depth + 1) quote t).2 = (splitBlock 0 none (splitBlock depth quote t).2).2 ∧
      splitBlock depth quote (splitBlock (depth + 1) quote t).1 =
        ((splitBlock depth quote t).1, (splitBlock 0 none (splitBlock depth quote t).2).1) ∧
      newlines (splitBlock (depth + 1) quote t).1 =
        newlines (splitBlock depth quote t).1 +
          newlines (splitBlock 0 none (splitBlock depth quote t).2).1 := by
  induction t generalizing depth quote with
  | nil => exact ⟨rfl, rfl, rfl⟩
  | cons c t ih =>
    by_cases h : quote = none ∧ c = '}' ∧ depth = 0
    · obtain ⟨rfl, rfl, rfl⟩ := h
      rw [splitBlock_cons (by simp)]
      exact ⟨rfl, rfl, (newlines_cons_of_ne (by decide) _).trans (Nat.zero_add _).symm⟩
    · obtain ⟨hrest, hinside, hlines⟩ := ih (blocksAfter quote depth c) (quoteAfter quote c)
      have houter : ¬(quote = none ∧ c = '}' ∧ depth + 1 = 0) := by simp
      rw [splitBlock_cons houter, blocksAfter_succ h, splitBlock_cons h, splitBlock_cons h, hinside]
      refine ⟨hrest, rfl, ?_⟩
      simp only [newlines, List.count_cons] at hlines ⊢
      omega

/-! ### Blocks that are read -/

/-- What was kept of a block since its last semicolon. -/
def lastSegment (body : Text) : Text := (body.reverse.takeWhile (· ≠ ';')).reverse

/-- What was kept of a block up to its last semicolon. -/
def wholeSegments (body : Text) : Text := (body.reverse.dropWhile (· ≠ ';')).reverse

/-- **What was read of a block.** -/
structure BlockReading where
  /-- The inside of the block without the rules nested in it. -/
  body : Text
  /-- What is reported of these rules. -/
  reports : List Diagnostic
  /-- The place behind the block. -/
  next : Cursor
  deriving DecidableEq, Repr

/-- **Reads a block up to its closing brace**, when a part of it was kept already and a quote may be
open. At a nested block, what was kept since the last semicolon is given up for its line breaks, and
so is the block. -/
def keepBlock (body : Text) (quote : Option Char) (line : Nat) (t : Text) :
    Except Fault BlockReading :=
  match t with
  | [] => return ⟨body, [], ⟨line, []⟩⟩
  | c :: rest =>
    let next := lineAfter line c
    if quote.isSome then keepBlock (body ++ [c]) (quoteAfter quote c) next rest
    else if c = '}' then return ⟨body, [], ⟨next, rest⟩⟩
    else if c = '{' then
      match _h : skipBlock 0 none next rest with
      | .error fault => .error fault
      | .ok after => do
        let kept := wholeSegments body ++ lineBreaks (lastSegment body)
          ++ List.replicate (after.line - next) '\n'
        let reading ← keepBlock kept none after.line after.rest
        return { reading with
          reports := (nestedRule? next (lastSegment body)).toList ++ reading.reports }
    else keepBlock (body ++ [c]) (quoteAfter none c) next rest
termination_by t.length
decreasing_by
  · exact Nat.lt_succ_self _
  · exact Nat.lt_succ_of_le (length_rest_of_skipBlock _h)
  · exact Nat.lt_succ_self _

section Read

variable {body : Text} {quote : Option Char} {c : Char}

theorem keepBlock_close (body : Text) (line : Nat) (rest : Text) :
    keepBlock body none line ('}' :: rest) = .ok ⟨body, [], ⟨line, rest⟩⟩ := by
  rw [keepBlock]
  rfl

/-- A character is kept unless a brace is met. -/
theorem keepBlock_cons (h : ¬(quote = none ∧ (c = '}' ∨ c = '{'))) (body : Text) (line : Nat)
    (rest : Text) :
    keepBlock body quote line (c :: rest) =
      keepBlock (body ++ [c]) (quoteAfter quote c) (lineAfter line c) rest := by
  rw [keepBlock]
  cases quote with
  | some q => rfl
  | none =>
    rw [not_and, not_or] at h
    obtain ⟨hclosing, hopening⟩ := h rfl
    rw [if_neg (by simp), if_neg hclosing, if_neg hopening]

theorem lineBreaks_eq_replicate (t : Text) : lineBreaks t = List.replicate (newlines t) '\n' :=
  List.filter_beq '\n'

/-- **A nested block is given up**, with what was kept in front of it. -/
theorem keepBlock_open (body : Text) (line : Nat) (rest : Text) :
    keepBlock body none line ('{' :: rest) =
      (keepBlock
          (wholeSegments body ++ lineBreaks (lastSegment body)
            ++ lineBreaks (splitBlock 0 none rest).1)
          none (line + newlines (splitBlock 0 none rest).1) (splitBlock 0 none rest).2).map
        fun reading =>
          { reading with
            reports := (nestedRule? line (lastSegment body)).toList ++ reading.reports } := by
  have hskip := skipBlock_eq 0 none line rest
  have hne : '{' ≠ '}' := by decide
  rw [keepBlock, lineAfter_of_ne (by decide)]
  simp only [Option.isSome_none, Bool.false_eq_true, if_false, if_neg hne, if_true]
  split
  · rename_i fault hfault
    rw [hskip] at hfault
    simp at hfault
  · rename_i after hafter
    rw [hskip] at hafter
    obtain rfl := Except.ok.inj hafter
    rw [lineBreaks_eq_replicate (splitBlock 0 none rest).1]
    simp only [Nat.add_sub_cancel_left]
    rfl

end Read

/-! ### The two steps in one pass -/

section Segments

variable {kept tail : Text}

/-- What was kept is cut behind its last semicolon. -/
theorem lastSegment_append (hkept : ∀ c ∈ kept.getLast?, c = ';') (htail : ';' ∉ tail) :
    lastSegment (kept ++ tail) = tail ∧ wholeSegments (kept ++ tail) = kept := by
  have hbehind : ∀ c ∈ tail.reverse, decide (c ≠ ';') = true := fun c hc =>
    decide_eq_true fun heq => htail (heq ▸ List.mem_reverse.mp hc)
  have hlast : ∀ c ∈ kept.reverse.head?, decide (c ≠ ';') = false := by
    rw [List.head?_reverse]
    exact fun c hc => decide_eq_false (not_not_intro (hkept c hc))
  rw [lastSegment, wholeSegments, List.reverse_append, takeWhile_append_stop hbehind hlast,
    dropWhile_append_stop hbehind hlast, List.reverse_reverse, List.reverse_reverse]
  exact ⟨rfl, rfl⟩

end Segments

/-- **What was kept of a block at some time**: whole segments, then the line breaks of dropped
rules, and then the beginning of a segment, which may begin in a quote. -/
structure BlockProgress where
  /-- The quote that the present segment begins in. -/
  quote : Option Char
  /-- The segments before it. -/
  kept : Text
  /-- The line breaks in front of it. -/
  breaks : Text
  /-- What was read of it. -/
  lead : Text
  /-- Whole segments end with a semicolon. -/
  whole : ∀ c ∈ kept.getLast?, c = ';'
  /-- Dropped rules leave nothing but line breaks. -/
  gap : ∀ c ∈ breaks, c = '\n'
  /-- The segment has not ended. -/
  unended : ';' ∉ lead
  /-- It has opened no block. -/
  unnested : '{' ∉ unquoted quote lead
  /-- A semicolon is no quote. -/
  mark : quote ≠ some ';'

namespace BlockProgress

/-- Nothing was read of the block. -/
def start : BlockProgress where
  quote := none
  kept := []
  breaks := []
  lead := []
  whole := by simp
  gap := by simp
  unended := by simp
  unnested := by simp
  mark := by simp

variable (p : BlockProgress)

/-- What was kept. -/
def body : Text := p.kept ++ (p.breaks ++ p.lead)

/-- The quote that is open. -/
def openQuote : Option Char := quoteAtEnd p.quote p.lead

theorem openQuote_ne : p.openQuote ≠ some ';' :=
  quoteAtEnd_ne_some p.mark (by decide) (by decide) p.lead

/-- The segment goes on. -/
def concat (c : Char) (hc : c ≠ ';') (hbrace : ¬(p.openQuote = none ∧ (c = '}' ∨ c = '{'))) :
    BlockProgress where
  quote := p.quote
  kept := p.kept
  breaks := p.breaks
  lead := p.lead ++ [c]
  whole := p.whole
  gap := p.gap
  unended := by
    rw [List.mem_append, List.mem_singleton, not_or]
    exact ⟨p.unended, Ne.symm hc⟩
  unnested := by
    rw [unquoted_append, List.mem_append, not_or, ← openQuote]
    refine ⟨p.unnested, fun hmem => ?_⟩
    cases hquote : p.openQuote with
    | none =>
      rw [hquote, unquoted_none_cons, unquoted_nil, List.mem_singleton] at hmem
      exact hbrace ⟨hquote, .inr hmem.symm⟩
    | some q =>
      rw [hquote] at hmem
      simp at hmem
  mark := p.mark

/-- A semicolon ends the segment, which is kept. -/
def semicolon : BlockProgress where
  quote := p.openQuote
  kept := p.kept ++ (p.breaks ++ (p.lead ++ [';']))
  breaks := []
  lead := []
  whole := by simp
  gap := by simp
  unended := by simp
  unnested := by simp
  mark := p.openQuote_ne

/-- A nested rule leaves its line breaks. -/
def block (nested : Text) : BlockProgress where
  quote := none
  kept := p.kept
  breaks := p.breaks ++ (lineBreaks p.lead ++ lineBreaks nested)
  lead := []
  whole := p.whole
  gap := by
    have hlines (t : Text) : ∀ c ∈ lineBreaks t, c = '\n' := fun c hc => by
      simpa using (List.mem_filter.mp hc).2
    intro c hc
    rcases List.mem_append.mp hc with hc | hc
    · exact p.gap c hc
    · exact (List.mem_append.mp hc).elim (hlines p.lead c) (hlines nested c)
  unended := by simp
  unnested := by simp
  mark := by simp

theorem openQuote_concat {c : Char} (hc : c ≠ ';')
    (hbrace : ¬(p.openQuote = none ∧ (c = '}' ∨ c = '{'))) :
    (p.concat c hc hbrace).openQuote = quoteAfter p.openQuote c :=
  quoteAtEnd_append p.quote p.lead [c]

theorem openQuote_semicolon : p.semicolon.openQuote = quoteAfter p.openQuote ';' :=
  (quoteAfter_semicolon p.openQuote_ne).symm

/-! #### The line breaks in front of a segment -/

theorem isAllBlank_breaks : isAllBlank p.breaks = true :=
  List.all_eq_true.mpr fun c hc => by
    rw [p.gap c hc]
    decide

theorem lineBreaks_breaks : lineBreaks p.breaks = p.breaks :=
  List.filter_eq_self.mpr fun c hc => beq_iff_eq.mpr (p.gap c hc)

/-- **What was kept is cut where the present segment begins**, with the line breaks in front of
it. -/
theorem cut_body : lastSegment p.body = p.breaks ++ p.lead ∧ wholeSegments p.body = p.kept := by
  refine lastSegment_append p.whole ?_
  rw [List.mem_append, not_or]
  exact ⟨not_mem_of_isAllBlank p.isAllBlank_breaks (by decide), p.unended⟩

/-- A nested rule is reported without the line breaks that others have left. -/
theorem nestedRule?_lastSegment (line : Nat) :
    nestedRule? line (lastSegment p.body) = nestedRule? line p.lead := by
  rw [p.cut_body.1, nestedRule?, nestedRule?, isAllBlank_append, p.isAllBlank_breaks,
    Bool.true_and, trim_blank_append p.isAllBlank_breaks]

/-- **When a nested block is given up**, what is left is what the rule leaves. -/
theorem body_block (nested : Text) :
    (p.block nested).body =
      wholeSegments p.body ++ lineBreaks (lastSegment p.body) ++ lineBreaks nested := by
  have hbreaks : lineBreaks (p.breaks ++ p.lead) = p.breaks ++ lineBreaks p.lead := by
    rw [lineBreaks, List.filter_append, ← lineBreaks, ← lineBreaks, p.lineBreaks_breaks]
  rw [p.cut_body.1, p.cut_body.2, hbreaks]
  simp [body, block]

/-! #### What the two steps come to -/

/-- **What is read in two steps of the rest of a block**, when the present segment begins at a
line. -/
def reading (line : Nat) (t : Text) : BlockReading where
  body := p.kept ++
    (p.breaks ++ (dropNested line p.quote (p.lead ++ (splitBlock 0 p.openQuote t).1)).1)
  reports := (dropNested line p.quote (p.lead ++ (splitBlock 0 p.openQuote t).1)).2
  next :=
    { line := line + newlines p.lead + newlines (splitBlock 0 p.openQuote t).1
      rest := (splitBlock 0 p.openQuote t).2 }

variable {p} (line : Nat)

/-- Where the block ends, all is kept that was. -/
theorem reading_of_end {t rest : Text} (h : splitBlock 0 p.openQuote t = ([], rest)) :
    p.reading line t = ⟨p.body, [], ⟨line + newlines p.lead, rest⟩⟩ := by
  rw [reading, h, List.append_nil, dropNested_of_not_mem line p.mark p.unnested]
  rfl

theorem reading_concat {c : Char} (hc : c ≠ ';')
    (hbrace : ¬(p.openQuote = none ∧ (c = '}' ∨ c = '{'))) (rest : Text) :
    p.reading line (c :: rest) = (p.concat c hc hbrace).reading line rest := by
  have hlines (t : Text) : newlines p.lead + newlines (c :: t) =
      newlines (p.lead ++ [c]) + newlines t := by
    rw [← newlines_append, ← newlines_append, List.append_assoc, List.singleton_append]
  rw [reading, splitBlock_cons_of_inside hbrace, ← openQuote_concat p hc hbrace, Nat.add_assoc,
    hlines, reading]
  simp [concat, Nat.add_assoc]

theorem reading_semicolon (rest : Text) :
    p.reading line (';' :: rest) = p.semicolon.reading (line + newlines p.lead) rest := by
  rw [reading, splitBlock_cons_of_inside (by simp), ← openQuote_semicolon,
    dropNested_append_semicolon p.mark p.unnested, newlines_cons_of_ne (by decide), reading]
  simp [semicolon, openQuote]

theorem reading_block (hquote : p.openQuote = none) (rest : Text) :
    p.reading line ('{' :: rest) =
      { (p.block (splitBlock 0 none rest).1).reading
          (line + newlines p.lead + newlines (splitBlock 0 none rest).1)
          (splitBlock 0 none rest).2 with
        reports := (nestedRule? (line + newlines p.lead) p.lead).toList ++
          ((p.block (splitBlock 0 none rest).1).reading
            (line + newlines p.lead + newlines (splitBlock 0 none rest).1)
            (splitBlock 0 none rest).2).reports } := by
  obtain ⟨hrest, hinside, hlines⟩ := splitBlock_succ 0 none rest
  have hsplit : splitBlock 0 none ('{' :: rest) =
      ('{' :: (splitBlock 1 none rest).1, (splitBlock 1 none rest).2) := rfl
  have hcut := cutSegment_append_cons p.unended p.unnested (Or.inr ⟨hquote, rfl⟩)
    (splitBlock 1 none rest).1
  rw [reading, hquote, hsplit, dropNested_block line hcut, hinside, hrest,
    newlines_cons_of_ne (by decide), hlines, reading]
  simp [block, openQuote, Nat.add_assoc]

/-- **The pass keeps of a block what is left of it in two steps**, from any time on. -/
theorem keepBlock_eq_reading (p : BlockProgress) (line : Nat) (t : Text) :
    keepBlock p.body p.openQuote (line + newlines p.lead) t = .ok (p.reading line t) := by
  induction hlength : t.length using Nat.strongRecOn generalizing p line t with
  | ind length ih =>
    subst hlength
    cases t with
    | nil =>
      rw [keepBlock, reading_of_end line (splitBlock_nil 0 p.openQuote)]
      rfl
    | cons c rest =>
      by_cases hclosing : p.openQuote = none ∧ c = '}'
      · obtain ⟨hquote, rfl⟩ := hclosing
        have hend : splitBlock 0 p.openQuote ('}' :: rest) = ([], rest) := by rw [hquote]; rfl
        rw [reading_of_end line hend, hquote, keepBlock_close]
      by_cases hopening : p.openQuote = none ∧ c = '{'
      · obtain ⟨hquote, rfl⟩ := hopening
        have hshorter : (splitBlock 0 none rest).2.length < ('{' :: rest).length :=
          Nat.lt_succ_of_le (length_splitBlock_snd_le 0 none rest)
        have hnext := ih _ hshorter (p.block (splitBlock 0 none rest).1)
          (line + newlines p.lead + newlines (splitBlock 0 none rest).1) _ rfl
        rw [body_block] at hnext
        rw [reading_block line hquote, hquote, keepBlock_open, p.nestedRule?_lastSegment]
        exact congrArg (Except.map _) hnext
      · have hbrace : ¬(p.openQuote = none ∧ (c = '}' ∨ c = '{')) := fun hc =>
          hc.2.elim (fun hclose => hclosing ⟨hc.1, hclose⟩) fun hopen => hopening ⟨hc.1, hopen⟩
        rw [keepBlock_cons hbrace]
        by_cases hc : c = ';'
        · subst hc
          have hnext := ih _ (Nat.lt_succ_self _) p.semicolon (line + newlines p.lead) rest rfl
          rw [reading_semicolon, ← hnext, openQuote_semicolon, lineAfter_of_ne (by decide)]
          simp [semicolon, body]
        · have hnext := ih _ (Nat.lt_succ_self _) (p.concat c hc hbrace) line rest rfl
          have hline : lineAfter (line + newlines p.lead) c = line + newlines (p.lead ++ [c]) := by
            rw [newlines_append, ← Nat.add_assoc, ← lineAfter_add]
            rfl
          rw [reading_concat line hc hbrace, ← hnext, openQuote_concat, hline]
          simp [concat, body]

end BlockProgress

/-- **A block is read in one pass as in two steps**: to its end, and without the rules nested in
it. -/
theorem keepBlock_eq (line : Nat) (t : Text) :
    keepBlock [] none line t =
      .ok
        { body := (dropNested line none (splitBlock 0 none t).1).1
          reports := (dropNested line none (splitBlock 0 none t).1).2
          next := ⟨line + newlines (splitBlock 0 none t).1, (splitBlock 0 none t).2⟩ } :=
  BlockProgress.keepBlock_eq_reading .start line t

/-- **Both passes stop at the matching brace.** In front of it stands a text that closes its quotes,
and whose braces outside quotes are nested; behind it is what is left to be read, further down by
the line breaks of the text. The block is what the two steps make of it. On no text whatsoever does
the number of open blocks go below zero. -/
theorem passes_stop_at_brace {b : Text} (hquotes : quoteAtEnd none b = none)
    (hbraces : IsNested '{' '}' (unquoted none b)) (rest : Text) (line : Nat) :
    skipBlock 0 none line (b ++ '}' :: rest) = .ok ⟨line + newlines b, rest⟩ ∧
      keepBlock [] none line (b ++ '}' :: rest) =
        .ok ⟨(dropNested line none b).1, (dropNested line none b).2, ⟨line + newlines b, rest⟩⟩ ∧
      splitBlock 0 none (b ++ '}' :: rest) = (b, rest) ∧
      (∀ depth quote line t, ∃ next, skipBlock depth quote line t = .ok next) ∧
      ∀ line t, ∃ reading, keepBlock [] none line t = .ok reading := by
  have hcloses : ClosesBlocks b :=
    ⟨hquotes, (Brackets.isBalanced_iff_isNested (by decide)).mpr hbraces⟩
  have hsplit := hcloses.splitBlock_append rest
  refine ⟨?_, ?_, hsplit, fun depth quote line t => ⟨_, skipBlock_eq depth quote line t⟩,
    fun line t => ⟨_, keepBlock_eq line t⟩⟩
  · rw [skipBlock_eq, hsplit]
  · rw [keepBlock_eq, hsplit]

/-- The inside of a block with a nested rule over two lines, and braces in quotes. -/
def quotedBraces : Text := "a: '\x7d'; b \x7b\n c: \"\x7b\" \x7d\n d: 1".toList

theorem passes_stop_at_brace_quotedBraces :
    quoteAtEnd none quotedBraces = none ∧ IsNested '{' '}' (unquoted none quotedBraces) ∧
      skipBlock 0 none 1 (quotedBraces ++ '}' :: "p".toList) = .ok ⟨3, "p".toList⟩ ∧
      keepBlock [] none 1 (quotedBraces ++ '}' :: "p".toList) =
        .ok ⟨"a: '\x7d';\n\n d: 1".toList,
          [.unsupportedSelector 1 "b".toList "nested rule".toList], ⟨3, "p".toList⟩⟩ := by
  have hquotes : quoteAtEnd none quotedBraces = none := by decide
  have hbraces : IsNested '{' '}' (unquoted none quotedBraces) :=
    (Brackets.isBalanced_iff_isNested (by decide)).mp (by decide)
  have hlines : newlines quotedBraces = 2 := by decide
  have hdropped : dropNested 1 none quotedBraces =
      ("a: '\x7d';\n\n d: 1".toList,
        [.unsupportedSelector 1 "b".toList "nested rule".toList]) := by
    have hfirst : cutSegment none quotedBraces =
        ("a: '\x7d'".toList, none, ';' :: " b \x7b\n c: \"\x7b\" \x7d\n d: 1".toList) := by decide
    have hrule : cutSegment none " b \x7b\n c: \"\x7b\" \x7d\n d: 1".toList =
        (" b ".toList, none, '{' :: "\n c: \"\x7b\" \x7d\n d: 1".toList) := by decide
    have hblock : splitBlock 0 none "\n c: \"\x7b\" \x7d\n d: 1".toList =
        ("\n c: \"\x7b\" ".toList, "\n d: 1".toList) := by decide
    have hlast : cutSegment none "\n d: 1".toList = ("\n d: 1".toList, none, []) := by decide
    rw [dropNested_semicolon 1 hfirst, dropNested_block _ hrule, hblock, dropNested_last _ hlast]
    decide
  obtain ⟨hskip, hread, -⟩ := passes_stop_at_brace hquotes hbraces "p".toList 1
  rw [hlines] at hskip hread
  rw [hdropped] at hread
  exact ⟨hquotes, hbraces, hskip, hread⟩

end CssResources
