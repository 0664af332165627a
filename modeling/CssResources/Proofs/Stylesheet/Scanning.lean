import CssResources.Proofs.Text.Blank
import CssResources.Proofs.Text.Enclosed
import CssResources.Proofs.Text.Parts
import CssResources.Stylesheet.Reading
import Mathlib.Algebra.GroupWithZero.Nat

/-!
# Where a stylesheet is cut

A stylesheet is read by several scanners, each of which keeps count of quotes and brackets for
itself: comments are removed, fragments are cut, a block is followed to its end, nested rules
are dropped, segments and selectors are cut. This file says for each of them that it passes
through a text that **closes what it opens**, and goes on after it as at the start.

| scanner | what it passes through |
|---|---|
| `CssResources.stripComments` | a text without `/*` |
| `CssResources.splitBlock` | `CssResources.ClosesBlocks` |
| `CssResources.dropNested` | `CssResources.StaysInBlock` |
| `CssResources.bodySegments` | `CssResources.IsSegment` |
| `CssResources.selectorParts` | a text whose brackets are balanced, with commas in them only |

Texts that can be passed through can be put in a row. One without any of the marks that a
scanner looks for is always passed through (`CssResources.isSegment_of_not_mem`).
-/

namespace CssResources

/-! ### Comments -/

theorem stripComments_cons {c : Char} {t : Text} (h : ¬(c = '/' ∧ t.head? = some '*')) :
    stripComments (c :: t) = c :: stripComments t := by
  rw [stripComments, stripCommentsFrom]
  · rfl
  · rintro t' rfl rfl
    exact h ⟨rfl, rfl⟩

theorem not_comment_cons_iff {c : Char} {t : Text} :
    ¬"/*".toList <:+: c :: t ↔ ¬(c = '/' ∧ t.head? = some '*') ∧ ¬"/*".toList <:+: t :=
  (not_congr pair_isInfix_cons_iff).trans not_or

/-- **No comment begins in a text without `/*`**, unless it begins on the border to what follows
it. -/
theorem stripComments_append {s t : Text} (hs : ¬"/*".toList <:+: s)
    (hborder : s.getLast? ≠ some '/' ∨ t.head? ≠ some '*') :
    stripComments (s ++ t) = s ++ stripComments t := by
  induction s with
  | nil => rfl
  | cons c s ih =>
    obtain ⟨hc, hs⟩ := not_comment_cons_iff.mp hs
    have hpair : ¬(c = '/' ∧ (s ++ t).head? = some '*') := by
      rintro ⟨rfl, hhead⟩
      cases s with
      | nil => exact hborder.elim (fun hlast => hlast rfl) fun hne => hne hhead
      | cons d s => exact hc ⟨rfl, hhead⟩
    rw [List.cons_append, stripComments_cons hpair, ih hs (hborder.imp_left getLast?_ne_of_cons),
      List.cons_append]

/-- A text without comments stays as it is. -/
theorem stripComments_of_not_comment {t : Text} (h : ¬"/*".toList <:+: t) :
    stripComments t = t := by
  have hnil := stripComments_append (t := []) h (Or.inr (by simp))
  rwa [List.append_nil, stripComments_nil, List.append_nil] at hnil

/-- **A text in which no comment begins**, whatever comes after it. -/
def IsUncommented (s : Text) : Prop := ∀ t, stripComments (s ++ t) = s ++ stripComments t

theorem IsUncommented.stripComments_eq {s : Text} (h : IsUncommented s) : stripComments s = s := by
  simpa using h []

theorem IsUncommented.append {s t : Text} (hs : IsUncommented s) (ht : IsUncommented t) :
    IsUncommented (s ++ t) := fun u => by
  rw [List.append_assoc, hs, ht, List.append_assoc]

theorem isUncommented_flatMap {α : Type} {f : α → Text} {l : List α}
    (h : ∀ a ∈ l, IsUncommented (f a)) : IsUncommented (l.flatMap f) := by
  induction l with
  | nil => exact fun _ => rfl
  | cons a l ih =>
    rw [List.flatMap_cons]
    exact (h a (List.mem_cons_self ..)).append (ih fun a ha => h a (List.mem_cons_of_mem _ ha))

theorem not_comment_of_not_mem {s : Text} (h : '/' ∉ s) : ¬"/*".toList <:+: s :=
  fun hcomment => h (List.IsInfix.subset hcomment (by decide))

/-- No comment begins in a part of a text without comments. -/
theorem not_comment_of_isInfix {s t : Text} (hst : s <:+: t) (h : ¬"/*".toList <:+: t) :
    ¬"/*".toList <:+: s := fun hs => h (hs.trans hst)

/-- None begins on either side of a mark. -/
theorem not_comment_of_append_cons {s t : Text} {c : Char} (h : ¬"/*".toList <:+: s ++ c :: t) :
    ¬"/*".toList <:+: s ∧ ¬"/*".toList <:+: t :=
  ⟨not_comment_of_isInfix (List.prefix_append s _).isInfix h,
    not_comment_of_isInfix ((List.suffix_cons c t).trans (List.suffix_append s _)).isInfix h⟩

/-- No comment begins in a text without a slash. -/
theorem isUncommented_of_not_mem {s : Text} (h : '/' ∉ s) : IsUncommented s := fun _ =>
  stripComments_append (not_comment_of_not_mem h)
    (Or.inl fun hlast => h (List.mem_of_getLast? hlast))

/-- No comment begins in a text without `/*` and what follows it, if this begins without a
star. -/
theorem IsUncommented.append_cons {s t : Text} {c : Char} (hs : ¬"/*".toList <:+: s)
    (hc : c ≠ '*') (ht : IsUncommented (c :: t)) : IsUncommented (s ++ c :: t) := fun u => by
  rw [List.append_assoc, stripComments_append hs (Or.inr (by simpa using hc)), ht,
    List.append_assoc]

/-! ### Blocks -/

/-- **A text that stays in its block**: it closes its quotes, and has no brace outside them. -/
structure StaysInBlock (t : Text) : Prop where
  /-- It closes its quotes. -/
  quotes : quoteAtEnd none t = none
  /-- It opens no block. -/
  opening : '{' ∉ unquoted none t
  /-- It closes no block. -/
  closing : '}' ∉ unquoted none t

theorem StaysInBlock.append {s t : Text} (hs : StaysInBlock s) (ht : StaysInBlock t) :
    StaysInBlock (s ++ t) where
  quotes := by rw [quoteAtEnd_append, hs.quotes, ht.quotes]
  opening := by
    rw [unquoted_append, hs.quotes, List.mem_append, not_or]
    exact ⟨hs.opening, ht.opening⟩
  closing := by
    rw [unquoted_append, hs.quotes, List.mem_append, not_or]
    exact ⟨hs.closing, ht.closing⟩

theorem staysInBlock_flatMap {α : Type} {f : α → Text} {l : List α}
    (h : ∀ a ∈ l, StaysInBlock (f a)) : StaysInBlock (l.flatMap f) := by
  induction l with
  | nil => exact ⟨rfl, by simp, by simp⟩
  | cons a l ih =>
    rw [List.flatMap_cons]
    exact (h a (List.mem_cons_self ..)).append (ih fun a ha => h a (List.mem_cons_of_mem _ ha))

/-- **A text that closes its blocks**: it closes its quotes, each block that it opens outside them,
and no other. -/
structure ClosesBlocks (t : Text) : Prop where
  /-- It closes its quotes. -/
  quotes : quoteAtEnd none t = none
  /-- It closes the blocks that it opens, and no other. -/
  braces : Brackets.braces.IsBalanced (unquoted none t)

theorem ClosesBlocks.append {s t : Text} (hs : ClosesBlocks s) (ht : ClosesBlocks t) :
    ClosesBlocks (s ++ t) where
  quotes := by rw [quoteAtEnd_append, hs.quotes, ht.quotes]
  braces := by
    rw [unquoted_append, hs.quotes]
    exact hs.braces.append ht.braces

/-- A text without braces outside quotes opens no block and closes none. -/
theorem StaysInBlock.closesBlocks {t : Text} (h : StaysInBlock t) : ClosesBlocks t where
  quotes := h.quotes
  braces := Brackets.depthAtEnd?_of_not_mem (Brackets.not_mem_of_pair h.opening h.closing) 0

/-- **A text in braces closes its blocks** if what stands between them does. -/
theorem ClosesBlocks.inBraces {t : Text} (h : ClosesBlocks t) :
    ClosesBlocks ('{' :: (t ++ ['}'])) where
  quotes := by
    rw [quoteAtEnd_cons, quoteAtEnd_append]
    exact congrArg (quoteAtEnd · ['}']) h.quotes
  braces := by
    have hopen : Brackets.braces.after? 0 '{' = some 1 := rfl
    have hinside : Brackets.braces.depthAtEnd? 1 (unquoted none t) = some 1 :=
      Brackets.depthAtEnd?_add h.braces 1
    have hquote : quoteAfter none '{' = none := rfl
    rw [unquoted_none_cons, hquote, unquoted_append, h.quotes, Brackets.IsBalanced,
      Brackets.depthAtEnd?_cons, hopen, Option.bind_some, Brackets.depthAtEnd?_append, hinside]
    rfl

/-- Where braces close what they open, the number of open blocks is counted. -/
theorem blocksAfter_of_after? {depth depth' : Nat} {c : Char}
    (h : Brackets.braces.after? depth c = some depth') :
    blocksAfter none depth c = depth' ∧ ¬(c = '}' ∧ depth = 0) := by
  simp only [Brackets.after?, Brackets.braces, List.mem_singleton] at h
  rw [blocksAfter, Option.isSome_none, if_neg (by simp)]
  grind

/-- **A block is followed through a text that does not leave it**: what the text leaves open, the
rest is read with. -/
theorem splitBlock_append {depth depth' : Nat} {quote : Option Char} {s : Text}
    (h : Brackets.braces.depthAtEnd? depth (unquoted quote s) = some depth') (t : Text) :
    splitBlock depth quote (s ++ t) =
      (s ++ (splitBlock depth' (quoteAtEnd quote s) t).1,
        (splitBlock depth' (quoteAtEnd quote s) t).2) := by
  induction s generalizing depth quote with
  | nil =>
    obtain rfl : depth = depth' := Option.some.inj h
    rfl
  | cons c s ih =>
    rw [List.cons_append, splitBlock, quoteAtEnd_cons]
    cases quote with
    | none =>
      rw [unquoted_none_cons, Brackets.depthAtEnd?_cons] at h
      obtain ⟨d, hd, h⟩ := Option.bind_eq_some_iff.mp h
      obtain ⟨hblocks, hclose⟩ := blocksAfter_of_after? hd
      rw [if_neg fun hc => hclose hc.2, hblocks, ih h]
      rfl
    | some q =>
      rw [if_neg fun hc => absurd hc.1 (by simp)]
      exact congrArg (fun p : Text × Text => (c :: p.1, p.2)) (ih h)

/-- **A block ends after a text that closes its blocks.** -/
theorem ClosesBlocks.splitBlock_append {body : Text} (h : ClosesBlocks body) (rest : Text) :
    splitBlock 0 none (body ++ '}' :: rest) = (body, rest) := by
  rw [CssResources.splitBlock_append h.braces, h.quotes, splitBlock, if_pos ⟨rfl, rfl, rfl⟩,
    List.append_nil]

/-- Nothing but the closing brace of a block is lost when it is split off. -/
theorem splitBlock_cases (depth : Nat) (quote : Option Char) (t : Text) :
    t = (splitBlock depth quote t).1 ∧ (splitBlock depth quote t).2 = [] ∨
      t = (splitBlock depth quote t).1 ++ '}' :: (splitBlock depth quote t).2 := by
  induction t generalizing depth quote with
  | nil => exact Or.inl ⟨rfl, rfl⟩
  | cons c t ih =>
    rw [splitBlock]
    split
    · rename_i hc
      exact Or.inr (by rw [hc.2.1]; rfl)
    · rcases ih (blocksAfter quote depth c) (quoteAfter quote c) with h | h
      · exact Or.inl ⟨congrArg (c :: ·) h.1, h.2⟩
      · exact Or.inr (congrArg (c :: ·) h)

/-- The inside of a block is the start of the text that the block begins. -/
theorem splitBlock_fst_isInfix (depth : Nat) (quote : Option Char) (t : Text) :
    (splitBlock depth quote t).1 <:+: t := by
  rcases splitBlock_cases depth quote t with ⟨h, -⟩ | h
  · exact ⟨[], [], by simpa using h.symm⟩
  · conv => rhs; rw [h]
    exact (List.prefix_append _ _).isInfix

/-- What follows a block is the end of the text that the block begins. -/
theorem splitBlock_snd_isInfix (depth : Nat) (quote : Option Char) (t : Text) :
    (splitBlock depth quote t).2 <:+: t := by
  rcases splitBlock_cases depth quote t with ⟨-, hnil⟩ | h
  · rw [hnil]
    exact List.nil_infix
  · conv => rhs; rw [h]
    exact ((List.suffix_cons '}' _).trans (List.suffix_append _ _)).isInfix

/-- What stands in a block, and what follows it, is left of the text that the block begins. -/
theorem splitBlock_sublist (depth : Nat) (quote : Option Char) (t : Text) :
    ((splitBlock depth quote t).1 ++ (splitBlock depth quote t).2).Sublist t := by
  rcases splitBlock_cases depth quote t with ⟨h, hnil⟩ | h
  · simp [hnil, ← h]
  · conv => rhs; rw [h]
    exact (List.Sublist.refl _).append (List.sublist_cons_self _ _)

/-- **What a cut comes to**: the text in front of it, the quote open there, and the character that
it is made before. -/
theorem eq_of_cutSegment {quote quote' : Option Char} {t lead rest : Text} {c : Char}
    (h : cutSegment quote t = (lead, quote', c :: rest)) :
    t = lead ++ c :: rest ∧ quote' = quoteAtEnd quote lead ∧
      (c = ';' ∨ (quote' = none ∧ c = '{')) := by
  induction t generalizing quote lead with
  | nil => simp [cutSegment] at h
  | cons x t ih =>
    rw [cutSegment] at h
    split at h
    · rename_i hx
      simp only [Prod.mk.injEq, List.cons.injEq] at h
      obtain ⟨rfl, rfl, rfl, rfl⟩ := h
      exact ⟨rfl, rfl, hx⟩
    · simp only [Prod.mk.injEq] at h
      obtain ⟨rfl, hrest⟩ := h
      have hcut : cutSegment (quoteAfter quote x) t =
          ((cutSegment (quoteAfter quote x) t).1, quote', c :: rest) := by rw [← hrest]
      obtain ⟨ht, hquote', hc⟩ := ih hcut
      exact ⟨by rw [List.cons_append, ← ht], hquote', hc⟩

section DropNested

variable {quote quote' : Option Char} {t lead rest : Text} (line : Nat)

/-- A text without a segment's end is kept. -/
theorem dropNested_last (h : cutSegment quote t = (lead, quote', [])) :
    dropNested line quote t = (lead, []) := by
  rw [dropNested]
  split
  · rename_i heq
    obtain ⟨rfl, -⟩ := Prod.mk.inj (h.symm.trans heq)
    rfl
  · rename_i heq
    simp [h] at heq

/-- **A segment up to a semicolon is kept.** -/
theorem dropNested_semicolon (h : cutSegment quote t = (lead, quote', ';' :: rest)) :
    dropNested line quote t =
      (lead ++ ';' :: (dropNested (line + newlines lead) quote' rest).1,
        (dropNested (line + newlines lead) quote' rest).2) := by
  rw [dropNested]
  split
  · rename_i heq
    simp [h] at heq
  · rename_i heq
    rw [h] at heq
    simp only [Prod.mk.injEq, List.cons.injEq] at heq
    obtain ⟨rfl, rfl, rfl, rfl⟩ := heq
    rw [if_pos rfl]

/-- **A nested rule leaves its line breaks and its report.** -/
theorem dropNested_block (h : cutSegment quote t = (lead, quote', '{' :: rest)) :
    dropNested line quote t =
      (lineBreaks lead ++ lineBreaks (splitBlock 0 none rest).1
          ++ (dropNested (line + newlines lead + newlines (splitBlock 0 none rest).1) none
            (splitBlock 0 none rest).2).1,
        (nestedRule? (line + newlines lead) lead).toList
          ++ (dropNested (line + newlines lead + newlines (splitBlock 0 none rest).1) none
            (splitBlock 0 none rest).2).2) := by
  rw [dropNested]
  split
  · rename_i heq
    simp [h] at heq
  · rename_i heq
    rw [h] at heq
    simp only [Prod.mk.injEq, List.cons.injEq] at heq
    obtain ⟨rfl, rfl, rfl, rfl⟩ := heq
    rw [if_neg (by decide)]

end DropNested

/-- A semicolon opens no quote and closes none. -/
theorem quoteAfter_semicolon {quote : Option Char} (h : quote ≠ some ';') :
    quoteAfter quote ';' = quote := by
  cases quote with
  | none => rfl
  | some q => rw [quoteAfter_some, if_neg fun hq => h (congrArg some hq.symm)]

/-- **Nothing is dropped from a text that opens no block**, whatever quote it begins in. -/
theorem dropNested_of_not_mem {quote : Option Char} {t : Text} (line : Nat)
    (hquote : quote ≠ some ';') (h : '{' ∉ unquoted quote t) :
    dropNested line quote t = (t, []) := by
  fun_induction dropNested line quote t with
  | case1 line quote t lead quote' hcut =>
    have happend := cutSegment_append quote t
    rw [hcut] at happend
    simpa using happend
  | case2 line quote t lead quote' rest p hcut ih =>
    obtain ⟨rfl, hquote', -⟩ := eq_of_cutSegment hcut
    have hne : quote' ≠ some ';' :=
      hquote' ▸ quoteAtEnd_ne_some hquote (by decide) (by decide) lead
    rw [unquoted_append, ← hquote', List.mem_append, not_or] at h
    have hrest : '{' ∉ unquoted quote' rest := fun hmem =>
      h.2 (mem_unquoted_cons_of_mem (by rwa [quoteAfter_semicolon hne]))
    have hp : p = (rest, []) := ih hne hrest
    rw [hp]
  | case3 line quote t lead quote' c rest hcut hc nested p ih =>
    obtain ⟨rfl, hquote', hmark⟩ := eq_of_cutSegment hcut
    -- the cut is made before a brace, which stands outside quotes
    obtain ⟨hnone, rfl⟩ := hmark.resolve_left hc
    refine absurd ?_ h
    rw [unquoted_append, ← hquote', hnone]
    simp

/-- **Nothing is dropped from a text that stays in its block.** -/
theorem StaysInBlock.dropNested_eq {body : Text} (h : StaysInBlock body) (line : Nat) :
    dropNested line none body = (body, []) :=
  dropNested_of_not_mem line (by simp) h.opening

/-! ### Fragments -/

section Fragments

variable {lead : Text} (hlead : ∀ c ∈ lead, endsFragment c = false) (line : Nat) (rest : Text)

include hlead in
theorem takeWhile_endsFragment_append {c : Char} (hc : endsFragment c = true) :
    (lead ++ c :: rest).takeWhile (!endsFragment ·) = lead := by
  refine takeWhile_append_stop (fun c hc => by simp [hlead c hc]) fun x hx => ?_
  obtain rfl : c = x := Option.some.inj hx
  simp [hc]

include hlead in
theorem dropWhile_endsFragment_append {c : Char} (hc : endsFragment c = true) :
    (lead ++ c :: rest).dropWhile (!endsFragment ·) = c :: rest := by
  refine dropWhile_append_stop (fun c hc => by simp [hlead c hc]) fun x hx => ?_
  obtain rfl : c = x := Option.some.inj hx
  simp [hc]

include hlead in
/-- **A text in which no fragment ends is one statement.** -/
theorem fragments_last :
    fragments line lead = [.statement (lineOf line lead) (trim lead)] := by
  have hnot : ∀ c ∈ lead, (!endsFragment c) = true := fun c hc => by simp [hlead c hc]
  have htake : lead.takeWhile (!endsFragment ·) = lead := List.takeWhile_eq_self_iff.mpr hnot
  have hdrop : lead.dropWhile (!endsFragment ·) = [] := List.dropWhile_eq_nil_iff.mpr hnot
  rw [fragments, htake]
  split
  · rfl
  · rename_i heq
    rw [hdrop] at heq
    exact absurd heq (by simp)

include hlead in
/-- What the first character that ends a fragment does. -/
theorem fragments_append_cons {c : Char} (hc : endsFragment c = true) :
    fragments line (lead ++ c :: rest) =
      if c = '{' then
        .block (lineOf line lead) (trim lead) (line + newlines lead) (splitBlock 0 none rest).1 ::
          fragments (line + newlines lead + newlines (splitBlock 0 none rest).1)
            (splitBlock 0 none rest).2
      else if c = ';' then
        .statement (lineOf line lead) (trim lead) :: fragments (line + newlines lead) rest
      else fragments (line + newlines lead) rest := by
  rw [fragments, takeWhile_endsFragment_append hlead rest hc]
  split
  · rename_i heq
    rw [dropWhile_endsFragment_append hlead rest hc] at heq
    exact absurd heq (by simp)
  · rename_i c' rest' heq
    rw [dropWhile_endsFragment_append hlead rest hc] at heq
    obtain ⟨rfl, rfl⟩ := List.cons.inj heq
    rfl

include hlead in
/-- **A head and its block are one fragment.** -/
theorem fragments_open :
    fragments line (lead ++ '{' :: rest) =
      .block (lineOf line lead) (trim lead) (line + newlines lead) (splitBlock 0 none rest).1 ::
        fragments (line + newlines lead + newlines (splitBlock 0 none rest).1)
          (splitBlock 0 none rest).2 := by
  rw [fragments_append_cons hlead line rest (by decide), if_pos rfl]

include hlead in
/-- **A text up to a semicolon is one statement.** -/
theorem fragments_semicolon :
    fragments line (lead ++ ';' :: rest) =
      .statement (lineOf line lead) (trim lead) :: fragments (line + newlines lead) rest := by
  rw [fragments_append_cons hlead line rest (by decide), if_neg (by decide), if_pos rfl]

include hlead in
/-- A brace that closes nothing takes the text in front of it with it. -/
theorem fragments_close :
    fragments line (lead ++ '}' :: rest) = fragments (line + newlines lead) rest := by
  rw [fragments_append_cons hlead line rest (by decide), if_neg (by decide), if_neg (by decide)]

/-- **A head and a text that closes its blocks are one fragment**, and what follows is read as
from the start. -/
theorem fragments_block (hlead : ∀ c ∈ lead, endsFragment c = false) {body : Text}
    (hbody : ClosesBlocks body) (line : Nat) (rest : Text) :
    fragments line (lead ++ '{' :: (body ++ '}' :: rest)) =
      .block (lineOf line lead) (trim lead) (line + newlines lead) body ::
        fragments (line + newlines lead + newlines body) rest := by
  rw [fragments_open hlead, hbody.splitBlock_append]

end Fragments

theorem endsFragment_iff {c : Char} :
    endsFragment c = true ↔ (c = '{' ∨ c = ';') ∨ c = '}' := by
  rw [endsFragment, Bool.or_eq_true, Bool.or_eq_true, beq_iff_eq, beq_iff_eq, beq_iff_eq]

/-- No blank ends a fragment. -/
theorem endsFragment_of_isBlank {c : Char} (h : isBlank c = true) : endsFragment c = false := by
  refine Bool.eq_false_iff.mpr fun hends => ?_
  rcases endsFragment_iff.mp hends with (rfl | rfl) | rfl <;> exact absurd h (by decide)

/-- A text of blanks is one fragment without a text. -/
theorem fragments_of_isAllBlank {t : Text} (h : isAllBlank t = true) (line : Nat) :
    ∃ line', fragments line t = [.statement line' []] := by
  have hends : ∀ c ∈ t, endsFragment c = false := fun c hc =>
    endsFragment_of_isBlank (isBlank_of_mem_isAllBlank h hc)
  refine ⟨lineOf line t, ?_⟩
  rw [fragments_last hends, trim, trimStart_eq_nil_iff.mpr h, trimEnd_nil]

/-- Nothing is read where there is nothing. -/
theorem flatMap_rules_fragments_nil (line : Nat) :
    (fragments line []).flatMap Fragment.rules = [] := by
  obtain ⟨line', hline⟩ := fragments_of_isAllBlank isAllBlank_nil line
  rw [hline]
  rfl

/-- **Induction along the fragments of a text.** What is to be shown is assumed of the text after
the first fragment. -/
theorem fragments_induction {P : Text → Prop}
    (last : ∀ t, (∀ c ∈ t, endsFragment c = false) → P t)
    (block : ∀ lead rest, (∀ c ∈ lead, endsFragment c = false) →
      P (splitBlock 0 none rest).2 → P (lead ++ '{' :: rest))
    (statement : ∀ lead rest, (∀ c ∈ lead, endsFragment c = false) → P rest →
      P (lead ++ ';' :: rest))
    (stray : ∀ lead rest, (∀ c ∈ lead, endsFragment c = false) → P rest →
      P (lead ++ '}' :: rest))
    (t : Text) : P t := by
  induction h : t.length using Nat.strongRecOn generalizing t with
  | ind length ih =>
    subst h
    have hlead : ∀ c ∈ t.takeWhile (!endsFragment ·), endsFragment c = false := fun c hc => by
      simpa using List.mem_takeWhile_imp hc
    have ht := List.takeWhile_append_dropWhile (p := (!endsFragment ·)) (l := t)
    cases hdrop : t.dropWhile (!endsFragment ·) with
    | nil =>
      rw [hdrop, List.append_nil] at ht
      exact last t (ht ▸ hlead)
    | cons c rest =>
      rw [hdrop] at ht
      have hc : endsFragment c = true := by
        have hhead := List.head?_dropWhile_not (!endsFragment ·) t
        simpa [hdrop] using hhead
      have hlength : rest.length < t.length := by
        rw [← ht, List.length_append, List.length_cons]
        omega
      have hrest : P rest := ih rest.length hlength rest rfl
      have hinside : P (splitBlock 0 none rest).2 :=
        ih _ (Nat.lt_of_le_of_lt (length_splitBlock_snd_le 0 none rest) hlength) _ rfl
      rw [← ht]
      rcases endsFragment_iff.mp hc with (rfl | rfl) | rfl
      · exact block _ rest hlead hinside
      · exact statement _ rest hlead hrest
      · exact stray _ rest hlead hrest

/-! ### What fragments give -/

/-- **A statement gives no rule**, or a rule of the declaration that its text is read as. -/
theorem Fragment.rules_statement_cases (line : Nat) (t : Text) :
    (statement line t).rules = [] ∨ ∃ d, Declaration.ofText? line t = some d ∧
      (statement line t).rules = [{ selectors := [], declarations := [d], line }] := by
  rw [rules]
  split
  · exact Or.inl rfl
  · cases hd : Declaration.ofText? line t with
    | none => exact Or.inl rfl
    | some d => exact Or.inr ⟨d, rfl, rfl⟩

/-- **A block gives no rule**, or a rule of the selectors of its head, with the declarations that are
left without nested rules. -/
theorem Fragment.rules_block_cases (line : Nat) (head : Text) (bodyLine : Nat) (body : Text) :
    (block line head bodyLine body).rules = [] ∨ selectorsOf head ≠ [] ∧
      (block line head bodyLine body).rules =
        [{ selectors := selectorsOf head,
           declarations := declarationsOf bodyLine (dropNested bodyLine none body).1, line }] := by
  rw [rules]
  split
  · exact Or.inl rfl
  · cases selectorsOf head with
    | nil => exact Or.inl rfl
    | cons s ss => exact Or.inr ⟨List.cons_ne_nil s ss, rfl⟩

/-! ### Segments -/

/-- **A text that stays in its segment**: it stays in its block, its parentheses are balanced,
and it has no semicolon outside quotes and parentheses. -/
structure IsSegment (t : Text) : Prop extends StaysInBlock t where
  /-- Its parentheses are balanced. -/
  parens : Brackets.parens.IsBalanced (unquoted none t)
  /-- It has no semicolon outside quotes and parentheses. -/
  semicolon : ';' ∉ Brackets.parens.outside 0 (unquoted none t)

theorem IsSegment.append {s t : Text} (hs : IsSegment s) (ht : IsSegment t) :
    IsSegment (s ++ t) where
  toStaysInBlock := hs.toStaysInBlock.append ht.toStaysInBlock
  parens := by
    rw [unquoted_append, hs.quotes]
    exact hs.parens.append ht.parens
  semicolon := by
    rw [unquoted_append, hs.quotes, Brackets.outside_append _ hs.parens, List.mem_append, not_or]
    exact ⟨hs.semicolon, ht.semicolon⟩

/-- The marks that the scanners of a block look for. -/
def blockMarks : Text := ['"', '\'', '(', ')', '{', '}', ';']

/-- **A text without marks stays in its segment.** -/
theorem isSegment_of_not_mem {t : Text} (h : ∀ c ∈ t, c ∉ blockMarks) : IsSegment t := by
  have hmark : ∀ c ∈ blockMarks, c ∉ t := fun c hc hmem => h c hmem hc
  have hunquoted {c : Char} (hc : c ∈ blockMarks) : c ∉ unquoted none t := fun hmem =>
    hmark c hc ((unquoted_sublist none t).subset hmem)
  refine ⟨⟨?_, hunquoted (by decide), hunquoted (by decide)⟩, ?_, fun hmem => ?_⟩
  · exact quoteAtEnd_of_not_mem (hmark _ (by decide)) (hmark _ (by decide))
  · exact Brackets.depthAtEnd?_of_not_mem
      (Brackets.not_mem_of_pair (hunquoted (by decide)) (hunquoted (by decide))) 0
  · exact hunquoted (by decide) ((Brackets.outside_sublist _ 0 _).subset hmem)

/-- **No segment ends in a semicolon**: it would stand outside quotes and parentheses. -/
theorem IsSegment.getLast?_ne_semicolon {t : Text} (h : IsSegment t) :
    t.getLast? ≠ some ';' := by
  intro hlast
  obtain ⟨u, rfl⟩ := List.getLast?_eq_some_iff.mp hlast
  have hquote : quoteAtEnd none u = none :=
    quoteAtEnd_eq_none_of_append h.quotes (by decide) (by decide)
  have hunquoted : unquoted none (u ++ [';']) = unquoted none u ++ [';'] := by
    rw [unquoted_append, hquote]
    rfl
  have hparens : Brackets.parens.IsBalanced (unquoted none u) :=
    Brackets.IsBalanced.of_append (hunquoted ▸ h.parens)
      (Brackets.not_mem_of_pair (by decide) (by decide))
  have hsemicolon := h.semicolon
  rw [hunquoted, Brackets.outside_append _ hparens] at hsemicolon
  exact hsemicolon (List.mem_append_right _ (List.mem_singleton_self _))

theorem bodySegments_ne_nil (depth : Nat) (quote : Option Char) (t : Text) :
    bodySegments depth quote t ≠ [] := by
  cases t with
  | nil => simp
  | cons c t =>
    rw [bodySegments]
    split
    · simp
    · generalize bodySegments _ _ t = segments
      cases segments <;> simp

/-- The segments of a block in a row, with the semicolons between them, are the block. -/
theorem intercalate_bodySegments (depth : Nat) (quote : Option Char) (t : Text) :
    [';'].intercalate (bodySegments depth quote t) = t := by
  induction t generalizing depth quote with
  | nil => rfl
  | cons c t ih =>
    rw [bodySegments]
    split
    · rename_i hc
      obtain ⟨w, ws, hws⟩ := List.exists_cons_of_ne_nil (bodySegments_ne_nil 0 none t)
      rw [hws, List.intercalate_cons_cons, ← hws, ih, hc.1]
      rfl
    · generalize (if quote.isSome = true then depth else depthAfter depth c) = depth'
      obtain ⟨w, ws, hws⟩ :=
        List.exists_cons_of_ne_nil (bodySegments_ne_nil depth' (quoteAfter quote c) t)
      have h := ih depth' (quoteAfter quote c)
      rw [hws] at h
      rw [hws, consHead_cons, ← h]
      cases ws with
      | nil => rw [List.intercalate_singleton, List.intercalate_singleton]
      | cons v ws =>
        rw [List.intercalate_cons_cons, List.intercalate_cons_cons, List.cons_append,
          List.cons_append]

/-- **A segment stands in its block in one piece.** -/
theorem isInfix_of_mem_bodySegments {depth : Nat} {quote : Option Char} {t s : Text}
    (h : s ∈ bodySegments depth quote t) : s <:+: t := by
  conv => rhs; rw [← intercalate_bodySegments depth quote t]
  exact isInfix_intercalate [';'] h

/-- Segments in a row have the line breaks that they have one by one: the semicolons between them
are none. -/
theorem newlines_intercalate (ss : List Text) :
    newlines ([';'].intercalate ss) = (ss.map newlines).sum := by
  induction ss with
  | nil => rfl
  | cons s ss ih =>
    cases ss with
    | nil => simp [List.intercalate_singleton]
    | cons s' ss =>
      have hsemicolon : newlines [';'] = 0 := rfl
      rw [List.intercalate_cons_cons, newlines_append, newlines_append, ih, hsemicolon, Nat.add_zero]
      exact List.sum_cons.symm

/-- The line breaks of a block are those of its segments. -/
theorem sum_newlines_bodySegments (t : Text) :
    ((bodySegments 0 none t).map newlines).sum = newlines t := by
  rw [← newlines_intercalate, intercalate_bodySegments]

/-- **A semicolon outside quotes and parentheses parts the segments** in those before it and those
after it. -/
theorem bodySegments_append_semicolon {depth : Nat} {quote : Option Char} {s : Text}
    (hquotes : quoteAtEnd quote s = none)
    (hparens : Brackets.parens.depthAtEnd? depth (unquoted quote s) = some 0) (t : Text) :
    bodySegments depth quote (s ++ ';' :: t) =
      bodySegments depth quote s ++ bodySegments 0 none t := by
  induction s generalizing depth quote with
  | nil =>
    obtain rfl : quote = none := hquotes
    obtain rfl : depth = 0 := Option.some.inj hparens
    exact if_pos ⟨rfl, rfl, rfl⟩
  | cons c s ih =>
    rw [List.cons_append, bodySegments, bodySegments]
    cases quote with
    | none =>
      rw [unquoted_none_cons, Brackets.depthAtEnd?_cons] at hparens
      obtain ⟨d, hd, hparens⟩ := Option.bind_eq_some_iff.mp hparens
      have hdepth : depthAfter depth c = d := Brackets.depthAfter_of_after? hd
      have hrest := ih hquotes hparens
      by_cases hcut : c = ';' ∧ depth = 0 ∧ (none : Option Char) = none
      · obtain ⟨rfl, rfl, -⟩ := hcut
        obtain rfl : 0 = d := hdepth
        have hquote : quoteAfter none ';' = none := rfl
        rw [hquote] at hrest
        rw [if_pos ⟨rfl, rfl, rfl⟩, if_pos ⟨rfl, rfl, rfl⟩, hrest, List.cons_append]
      · rw [if_neg hcut, if_neg hcut, Option.isSome_none, if_neg (by simp), hdepth, hrest,
          consHead_append (bodySegments_ne_nil _ _ _)]
    | some q =>
      have hcut : ¬(c = ';' ∧ depth = 0 ∧ some q = none) := by simp
      rw [if_neg hcut, if_neg hcut, Option.isSome_some, if_pos rfl, ih hquotes hparens,
        consHead_append (bodySegments_ne_nil _ _ _)]

/-- A text is passed through from inside quotes and parentheses on, if it closes them and has
no semicolon after them. -/
theorem bodySegments_append_of_quote {depth : Nat} {quote : Option Char} {s : Text}
    (hquotes : quoteAtEnd quote s = none)
    (hparens : Brackets.parens.depthAtEnd? depth (unquoted quote s) = some 0)
    (hsemicolon : ';' ∉ Brackets.parens.outside depth (unquoted quote s)) (t : Text) :
    bodySegments depth quote (s ++ t) = s.foldr consHead (bodySegments 0 none t) := by
  induction s generalizing depth quote with
  | nil =>
    obtain rfl : quote = none := hquotes
    obtain rfl : depth = 0 := Option.some.inj hparens
    rfl
  | cons c s ih =>
    rw [List.cons_append, bodySegments, List.foldr_cons]
    cases quote with
    | none =>
      rw [unquoted_none_cons] at hparens hsemicolon
      rw [Brackets.depthAtEnd?_cons] at hparens
      obtain ⟨d, hd, hparens⟩ := Option.bind_eq_some_iff.mp hparens
      rw [Brackets.outside_cons _ hd, List.mem_append, not_or] at hsemicolon
      have hcut : ¬(c = ';' ∧ depth = 0 ∧ (none : Option Char) = none) := by
        rintro ⟨rfl, rfl, -⟩
        exact hsemicolon.1 (by simp)
      rw [if_neg hcut, Option.isSome_none, if_neg (by simp), Brackets.depthAfter_of_after? hd,
        ih hquotes hparens hsemicolon.2]
    | some q =>
      rw [if_neg (by simp), Option.isSome_some, if_pos rfl, ih hquotes hparens hsemicolon]

/-- **A segment goes on after a text that stays in it.** -/
theorem IsSegment.bodySegments_append {s : Text} (hs : IsSegment s) (t : Text) :
    bodySegments 0 none (s ++ t) = s.foldr consHead (bodySegments 0 none t) :=
  bodySegments_append_of_quote hs.quotes hs.parens hs.semicolon t

/-- A segment ends with the text. -/
theorem IsSegment.bodySegments_eq {s : Text} (hs : IsSegment s) : bodySegments 0 none s = [s] := by
  have h := hs.bodySegments_append []
  rwa [List.append_nil, bodySegments_nil, foldr_consHead, List.append_nil] at h

/-- **A segment ends at the semicolon after it.** -/
theorem IsSegment.bodySegments_append_semicolon {s : Text} (hs : IsSegment s) (t : Text) :
    bodySegments 0 none (s ++ ';' :: t) = s :: bodySegments 0 none t := by
  rw [CssResources.bodySegments_append_semicolon hs.quotes hs.parens, hs.bodySegments_eq,
    List.singleton_append]

/-! ### Selectors -/

theorem bracketsAfter_of_after? {depth depth' : Nat} {c : Char}
    (h : Brackets.roundAndSquare.after? depth c = some depth') :
    bracketsAfter depth c = depth' := by
  simp only [Brackets.after?, Brackets.roundAndSquare, List.mem_cons, List.not_mem_nil, or_false]
    at h
  rw [bracketsAfter]
  grind

/-- **A selector goes on after a text** that closes its brackets and has no comma after them. -/
theorem selectorParts_append {depth : Nat} {s : Text}
    (hbrackets : Brackets.roundAndSquare.depthAtEnd? depth s = some 0)
    (hcomma : ',' ∉ Brackets.roundAndSquare.outside depth s) (t : Text) :
    selectorParts depth (s ++ t) = s.foldr consHead (selectorParts 0 t) := by
  induction s generalizing depth with
  | nil =>
    obtain rfl : depth = 0 := Option.some.inj hbrackets
    rfl
  | cons c s ih =>
    rw [Brackets.depthAtEnd?_cons] at hbrackets
    obtain ⟨d, hd, hbrackets⟩ := Option.bind_eq_some_iff.mp hbrackets
    rw [Brackets.outside_cons _ hd, List.mem_append, not_or] at hcomma
    have hcut : ¬(c = ',' ∧ depth = 0) := by
      rintro ⟨rfl, rfl⟩
      exact hcomma.1 (by simp)
    rw [List.cons_append, selectorParts, if_neg hcut, List.foldr_cons, bracketsAfter_of_after? hd,
      ih hbrackets hcomma.2]

end CssResources
