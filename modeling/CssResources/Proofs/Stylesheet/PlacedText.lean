import CssResources.Proofs.Stylesheet.Concatenation
import Mathlib.Data.List.Chain

/-!
# Texts whose characters know their places

The reader counts lines while it rewrites what it reads: comments are taken out of the source, and
nested rules out of blocks. To say which line a character of a rewritten text is at, each character
is given **the place where it stands in the source** (`CssResources.PlacedText`), and keeps it
through every rewriting. The line of a place is what the source says it is
(`CssResources.lineAt`).

A text traces a source from a line on (`CssResources.Traces`) if three things hold of it:

* each of its characters stands where its place says, unless it is a space that was put there;
* two neighbours in it are neighbours in the source, unless there is a blank or a semicolon
  between them (`CssResources.Adjoins`), so that names stand in the source in one piece;
* **counting its line breaks gives the line of the place of each of its characters**
  (`CssResources.KeepsLines`).

This goes to the pieces of a text and to pieces in a row, and it holds of the source without its
comments (`CssResources.traces_placedFrom`).
-/

namespace CssResources

/-- **A text whose characters know where they stand** in a source: each comes with the number of
characters in front of it. -/
abbrev PlacedText := List (Char × Nat)

namespace PlacedText

/-- The text without the places. -/
def text (ts : PlacedText) : Text := ts.map Prod.fst

@[simp] theorem text_nil : text [] = [] := rfl

@[simp] theorem text_cons (c : Char × Nat) (ts : PlacedText) :
    text (c :: ts) = c.1 :: text ts := rfl

@[simp] theorem text_append (ss ts : PlacedText) : text (ss ++ ts) = text ss ++ text ts :=
  List.map_append

@[simp] theorem text_take (ts : PlacedText) (n : Nat) : text (ts.take n) = (text ts).take n :=
  List.map_take

@[simp] theorem text_drop (ts : PlacedText) (n : Nat) : text (ts.drop n) = (text ts).drop n :=
  List.map_drop

@[simp] theorem length_text (ts : PlacedText) : (text ts).length = ts.length := List.length_map _

/-- **A text is cut at a character** where the text without the places is. -/
theorem eq_of_text_eq {ts : PlacedText} {s t : Text} {c : Char} (h : ts.text = s ++ c :: t) :
    ∃ place, ts = ts.take s.length ++ (c, place) :: ts.drop (s.length + 1) := by
  obtain ⟨ss, us, rfl, rfl, hus⟩ := List.map_eq_append_iff.mp h
  obtain ⟨d, us, rfl, rfl, rfl⟩ := List.map_eq_cons_iff.mp hus
  exact ⟨d.2, by simp⟩

/-- The line breaks of a text, where they stand. -/
def lineBreaks (ts : PlacedText) : PlacedText := ts.filter (·.1 == '\n')

@[simp] theorem text_lineBreaks (ts : PlacedText) :
    ts.lineBreaks.text = CssResources.lineBreaks ts.text := by
  rw [lineBreaks, text, CssResources.lineBreaks, text, List.filter_map]
  rfl

theorem eq_of_mem_lineBreaks {ts : PlacedText} {c : Char × Nat} (hc : c ∈ ts.lineBreaks) :
    c.1 = '\n' := by
  simpa using (List.mem_filter.mp hc).2

end PlacedText

/-! ### Lines -/

/-- **The line of a place** of a source. -/
def lineAt (source : Text) (place : Nat) : Nat := 1 + newlines (source.take place)

theorem lineAt_append_length (before t : Text) :
    lineAt (before ++ t) before.length = 1 + newlines before := by
  rw [lineAt, List.take_left]

/-- **Counting line breaks gives the line of each character**, from the line that the text begins
at. -/
def KeepsLines (source : Text) : Nat → PlacedText → Prop
  | _, [] => True
  | line, c :: ts => line = lineAt source c.2 ∧ KeepsLines source (line + newlines [c.1]) ts

variable {source : Text}

theorem keepsLines_append {line : Nat} {ss ts : PlacedText} :
    KeepsLines source line (ss ++ ts) ↔
      KeepsLines source line ss ∧ KeepsLines source (line + newlines ss.text) ts := by
  induction ss generalizing line with
  | nil => simp [KeepsLines]
  | cons c ss ih =>
    have hline : line + newlines [c.1] + newlines (PlacedText.text ss) =
        line + newlines (PlacedText.text (c :: ss)) := by
      rw [Nat.add_assoc, ← newlines_append]
      rfl
    rw [List.cons_append, KeepsLines, KeepsLines, ih, and_assoc, hline]

/-- Line breaks alone are at the lines that they are at in a text. -/
theorem KeepsLines.lineBreaks {line : Nat} {ts : PlacedText} (h : KeepsLines source line ts) :
    KeepsLines source line ts.lineBreaks := by
  induction ts generalizing line with
  | nil => trivial
  | cons c ts ih =>
    rw [PlacedText.lineBreaks, List.filter_cons]
    split
    · exact ⟨h.1, ih h.2⟩
    · rename_i hc
      have hrest := h.2
      rw [newlines_cons_of_ne (by simpa using hc), newlines_nil, Nat.add_zero] at hrest
      exact ih hrest

/-! ### Neighbours -/

/-- **Two neighbours in a text are neighbours in the source**, unless one of them is blank, or the
first one is a semicolon. -/
def Adjoins (c d : Char × Nat) : Prop :=
  d.2 = c.2 + 1 ∨ isBlank c.1 = true ∨ isBlank d.1 = true ∨ c.1 = ';'

theorem adjoins_of_mem_lineBreaks {ts : PlacedText} {c : Char × Nat} (hc : c ∈ ts.lineBreaks)
    (d : Char × Nat) : Adjoins c d := by
  have hblank : isBlank c.1 = true := by
    rw [PlacedText.eq_of_mem_lineBreaks hc]
    decide
  exact Or.inr (Or.inl hblank)

/-! ### Tracing a source -/

/-- **A text is placed in a source**: its characters stand there, and names in one piece. -/
structure IsPlaced (source : Text) (ts : PlacedText) : Prop where
  /-- A character stands at its place, unless it is a space that was put there. -/
  stands : ∀ c ∈ ts, c.1 = ' ' ∨ source[c.2]? = some c.1
  /-- Neighbours are neighbours in the source. -/
  adjoins : ts.IsChain Adjoins

/-- **A text traces a source** from a line on: it is placed in the source, and counting its line
breaks gives the lines of its characters. -/
structure Traces (source : Text) (line : Nat) (ts : PlacedText) : Prop
    extends IsPlaced source ts where
  /-- Counting line breaks gives the lines. -/
  keepsLines : KeepsLines source line ts

theorem IsPlaced.of_infix {ss ts : PlacedText} (h : IsPlaced source ts) (hss : ss <:+: ts) :
    IsPlaced source ss where
  stands c hc := h.stands c (hss.subset hc)
  adjoins := h.adjoins.infix hss

/-- What is not blank stands at its place. -/
theorem IsPlaced.getElem?_eq {ts : PlacedText} (h : IsPlaced source ts) {c : Char × Nat}
    (hc : c ∈ ts) (hblank : isBlank c.1 = false) : source[c.2]? = some c.1 := by
  refine (h.stands c hc).resolve_left fun hspace => ?_
  rw [hspace] at hblank
  exact absurd hblank (by decide)

namespace Traces

variable {line : Nat} {ss ts us : PlacedText} {c : Char × Nat}

theorem nil : Traces source line [] := ⟨⟨by simp, List.isChain_nil⟩, trivial⟩

theorem left (h : Traces source line (ss ++ us)) : Traces source line ss where
  toIsPlaced := h.toIsPlaced.of_infix (List.prefix_append ss us).isInfix
  keepsLines := (keepsLines_append.mp h.keepsLines).1

theorem right (h : Traces source line (ss ++ us)) :
    Traces source (line + newlines ss.text) us where
  toIsPlaced := h.toIsPlaced.of_infix (List.suffix_append ss us).isInfix
  keepsLines := (keepsLines_append.mp h.keepsLines).2

/-- What comes after a character that is no line break is at the line of what comes before. -/
theorem after (h : Traces source line (ss ++ c :: us)) (hc : c.1 ≠ '\n') :
    Traces source (line + newlines ss.text) us := by
  have htail : Traces source _ ([c] ++ us) := h.right
  have hline : newlines [c.1] = 0 := newlines_cons_of_ne hc []
  simpa [hline] using htail.right

/-- Texts in a row trace the source if the border between them is none in a name. -/
theorem append (hs : Traces source line ss) (ht : Traces source (line + newlines ss.text) ts)
    (hborder : ∀ c ∈ ss.getLast?, ∀ d ∈ ts.head?, Adjoins c d) :
    Traces source line (ss ++ ts) where
  stands c hc := (List.mem_append.mp hc).elim (hs.stands c) (ht.stands c)
  adjoins := List.isChain_append.mpr ⟨hs.adjoins, ht.adjoins, hborder⟩
  keepsLines := keepsLines_append.mpr ⟨hs.keepsLines, ht.keepsLines⟩

/-- **The line breaks of a passage stand for the passage.** -/
theorem lineBreaks_append (hs : Traces source line ss)
    (ht : Traces source (line + newlines ss.text) ts) :
    Traces source line (ss.lineBreaks ++ ts) := by
  have hbreaks : Traces source line ss.lineBreaks :=
    { stands := fun c hc => hs.stands c (List.mem_of_mem_filter hc)
      adjoins := List.isChain_iff_forall_rel_of_append_cons_cons.mpr fun _ d _ _ heq =>
        adjoins_of_mem_lineBreaks (heq ▸ List.mem_append_right _ (List.mem_cons_self ..)) d
      keepsLines := hs.keepsLines.lineBreaks }
  refine hbreaks.append ?_ fun c hc d _ => adjoins_of_mem_lineBreaks (List.mem_of_getLast? hc) d
  rwa [PlacedText.text_lineBreaks, newlines_lineBreaks]

end Traces

/-! ### Removing comments -/

/-- The text without its comments, each character at its place; the text begins at the place
given, and the flag says whether it begins inside a comment. The space that a comment leaves is
put where the comment ends. -/
def placedFrom : Bool → Nat → Text → PlacedText
  | false, place, '/' :: '*' :: t => placedFrom true (place + 2) t
  | true, place, '*' :: '/' :: t => (' ', place + 1) :: placedFrom false (place + 2) t
  | false, place, c :: t => (c, place) :: placedFrom false (place + 1) t
  | true, place, c :: t =>
    if c = '\n' then ('\n', place) :: placedFrom true (place + 1) t
    else placedFrom true (place + 1) t
  | false, _, [] => []
  | true, place, [] => [(' ', place)]

/-- **Without the places it is the text without its comments.** -/
theorem text_placedFrom (inside : Bool) (place : Nat) (t : Text) :
    (placedFrom inside place t).text = stripCommentsFrom inside t := by
  fun_induction placedFrom inside place t with
  | case1 place t ih => simpa [stripCommentsFrom] using ih
  | case2 place t ih => simpa [stripCommentsFrom] using ih
  | case3 place c t hopen ih =>
    rw [PlacedText.text_cons, ih]
    exact (stripComments_cons fun hc => by
      obtain ⟨t', rfl⟩ := List.head?_eq_some_iff.mp hc.2
      exact hopen t' hc.1 rfl).symm
  | case4 place t hclose ih =>
    rw [PlacedText.text_cons, ih, stripCommentsFrom_true_cons (by simp), if_pos rfl]
  | case5 place c t hclose hc ih =>
    rw [ih, stripCommentsFrom_true_cons, if_neg hc]
    rintro ⟨rfl, hhead⟩
    obtain ⟨t', rfl⟩ := List.head?_eq_some_iff.mp hhead
    exact hclose t' rfl rfl
  | case6 => rfl
  | case7 => rfl

/-- The lines are kept, since the line breaks of comments are. -/
theorem keepsLines_placedFrom (inside : Bool) (before t : Text) :
    KeepsLines (before ++ t) (1 + newlines before) (placedFrom inside before.length t) := by
  generalize hplace : before.length = place
  fun_induction placedFrom inside place t generalizing before with
  | case1 place t ih =>
    simpa [newlines_append, newlines] using ih (before ++ ['/', '*']) (by simp [hplace])
  | case2 place t ih =>
    constructor
    · have hline := lineAt_append_length (before ++ ['*']) ('/' :: t)
      simpa [newlines_append, newlines, hplace] using hline.symm
    · simpa [newlines_append, newlines] using ih (before ++ ['*', '/']) (by simp [hplace])
  | case3 place c t hopen ih =>
    subst hplace
    refine ⟨(lineAt_append_length before (c :: t)).symm, ?_⟩
    simpa [newlines_append, newlines, Nat.add_assoc] using ih (before ++ [c]) (by simp)
  | case4 place t hclose ih =>
    subst hplace
    refine ⟨(lineAt_append_length before ('\n' :: t)).symm, ?_⟩
    simpa [newlines_append, newlines, Nat.add_assoc] using ih (before ++ ['\n']) (by simp)
  | case5 place c t hclose hc ih =>
    have hbreaks : newlines [c] = 0 := newlines_cons_of_ne hc []
    simpa [newlines_append, hbreaks] using ih (before ++ [c]) (by simp [hplace])
  | case6 => trivial
  | case7 place =>
    subst hplace
    exact ⟨(lineAt_append_length before []).symm, trivial⟩

/-- What is left after comments stands in the source, but for the spaces put there. -/
theorem stands_of_mem_placedFrom {inside : Bool} (before : Text) {t : Text} {c : Char × Nat}
    (h : c ∈ placedFrom inside before.length t) :
    c.1 = ' ' ∨ (before ++ t)[c.2]? = some c.1 := by
  generalize hplace : before.length = place at h
  fun_induction placedFrom inside place t generalizing before with
  | case1 place t ih => simpa using ih (before ++ ['/', '*']) (by simp [hplace]) h
  | case2 place t ih =>
    rcases List.mem_cons.mp h with rfl | h
    · exact Or.inl rfl
    · simpa using ih (before ++ ['*', '/']) (by simp [hplace]) h
  | case3 place d t hopen ih =>
    rcases List.mem_cons.mp h with rfl | h
    · exact Or.inr (by simp [← hplace])
    · simpa using ih (before ++ [d]) (by simp [hplace]) h
  | case4 place t hclose ih =>
    rcases List.mem_cons.mp h with rfl | h
    · exact Or.inr (by simp [← hplace])
    · simpa using ih (before ++ ['\n']) (by simp [hplace]) h
  | case5 place d t hclose hd ih =>
    simpa using ih (before ++ [d]) (by simp [hplace]) h
  | case6 => simp at h
  | case7 => exact Or.inl (by simp_all)

/-- What is left begins where the text begins, or with a blank. -/
theorem head?_placedFrom {inside : Bool} {place : Nat} {t : Text} {c : Char × Nat}
    (h : c ∈ (placedFrom inside place t).head?) :
    isBlank c.1 = true ∨ inside = false ∧ c.2 = place := by
  have hspace : isBlank ' ' = true := by decide
  have hbreak : isBlank '\n' = true := by decide
  fun_induction placedFrom inside place t with
  | case1 place t ih => exact Or.inl ((ih h).resolve_right (by simp))
  | case2 place t ih =>
    obtain rfl := Option.mem_some_iff.mp h
    exact Or.inl hspace
  | case3 place d t hopen ih =>
    obtain rfl := Option.mem_some_iff.mp h
    exact Or.inr ⟨rfl, rfl⟩
  | case4 place t hclose ih =>
    obtain rfl := Option.mem_some_iff.mp h
    exact Or.inl hbreak
  | case5 place d t hclose hd ih => exact Or.inl ((ih h).resolve_right (by simp))
  | case6 => simp at h
  | case7 place =>
    obtain rfl := Option.mem_some_iff.mp h
    exact Or.inl hspace

/-- Neighbours that a comment has come between have a blank between them. -/
theorem isChain_placedFrom (inside : Bool) (place : Nat) (t : Text) :
    (placedFrom inside place t).IsChain Adjoins := by
  have hspace : isBlank ' ' = true := by decide
  have hbreak : isBlank '\n' = true := by decide
  fun_induction placedFrom inside place t with
  | case1 place t ih => exact ih
  | case2 place t ih => exact List.isChain_cons.mpr ⟨fun _ _ => Or.inr (Or.inl hspace), ih⟩
  | case3 place c t hopen ih =>
    refine List.isChain_cons.mpr ⟨fun d hd => ?_, ih⟩
    rcases head?_placedFrom hd with hd | ⟨-, hd⟩
    · exact Or.inr (Or.inr (Or.inl hd))
    · exact Or.inl hd
  | case4 place t hclose ih =>
    exact List.isChain_cons.mpr ⟨fun _ _ => Or.inr (Or.inl hbreak), ih⟩
  | case5 place c t hclose hc ih => exact ih
  | case6 => exact List.isChain_nil
  | case7 place => exact List.isChain_singleton _

/-- **A source without its comments traces the source** from its first line on. -/
theorem traces_placedFrom (source : Text) : Traces source 1 (placedFrom false 0 source) where
  stands _ hc := stands_of_mem_placedFrom [] hc
  adjoins := isChain_placedFrom false 0 source
  keepsLines := keepsLines_placedFrom false [] source

end CssResources
