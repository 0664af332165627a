import CssResources.Proofs.Stylesheet.Lines

/-!
# Stylesheets in a row

What is read from two texts in a row is what is read from the one and from the other, if the
first of them **ends at the top level** (`CssResources.EndsAtTop`): it leaves no comment open, no
block, and no fragment but blanks. However malformed it may be, the reader is then where it was
at the start, and only counts lines on.

* **Comments**: none is open, and no slash is left for a star to follow
  (`CssResources.stripCommentsFrom_append`).
* **Fragments**: the place at the end is the place at the start
  (`CssResources.exists_fragments_append`).
* **Merging**: only a rule without selectors reaches back over the border
  (`CssResources.Rule.mergeLoose_append`).

So the rules are those of the first text and then those of the second one, further down, where
two rules without selectors become one if they meet (`CssResources.ofText_append`).
-/

namespace CssResources

/-! ### Comments at the end of a text -/

/-- **Whether a text ends inside a comment.** The flag says whether it begins inside one. -/
def endsInComment : Bool → Text → Bool
  | false, '/' :: '*' :: t => endsInComment true t
  | true, '*' :: '/' :: t => endsInComment false t
  | inside, _ :: t => endsInComment inside t
  | inside, [] => inside

/-- Comments keep their line breaks. -/
theorem newlines_stripCommentsFrom (inside : Bool) (t : Text) :
    newlines (stripCommentsFrom inside t) = newlines t := by
  unfold newlines
  fun_induction stripCommentsFrom inside t with
  | case1 t ih => simpa using ih
  | case2 t ih => simpa using ih
  | case3 c t h ih => rw [List.count_cons, List.count_cons, ih]
  | case4 t h ih => rw [List.count_cons, List.count_cons, ih]
  | case5 c t h hc ih => simpa [hc] using ih
  | case6 => rfl
  | case7 => rfl

theorem newlines_stripComments (t : Text) : newlines (stripComments t) = newlines t :=
  newlines_stripCommentsFrom false t

/-- A comment goes on after a character that does not end it. -/
theorem stripCommentsFrom_true_cons {c : Char} {t : Text} (h : ¬(c = '*' ∧ t.head? = some '/')) :
    stripCommentsFrom true (c :: t) =
      if c = '\n' then '\n' :: stripCommentsFrom true t else stripCommentsFrom true t := by
  rw [stripCommentsFrom]
  rintro t' rfl rfl
  exact h ⟨rfl, rfl⟩

/-- **What follows a text without an open comment is stripped as from the start**, unless a slash
is left in front of a star. -/
theorem stripCommentsFrom_append {inside : Bool} {s t : Text}
    (h : endsInComment inside s = false)
    (hborder : (stripCommentsFrom inside s).getLast? ≠ some '/' ∨ t.head? ≠ some '*') :
    stripCommentsFrom inside (s ++ t) = stripCommentsFrom inside s ++ stripComments t := by
  fun_induction endsInComment inside s with
  | case1 s ih => exact ih h hborder
  | case2 s ih => exact congrArg (' ' :: ·) (ih h (hborder.imp_left getLast?_ne_of_cons))
  | case3 inside c s hopen hclose ih =>
    rw [List.cons_append]
    cases inside with
    | false =>
      have hs : ¬(c = '/' ∧ s.head? = some '*') := by
        rintro ⟨hc, hhead⟩
        obtain ⟨s', rfl⟩ := List.head?_eq_some_iff.mp hhead
        exact hopen s' rfl hc rfl
      rw [← stripComments, stripComments_cons hs] at hborder
      -- a slash at the end is left
      have hst : ¬(c = '/' ∧ (s ++ t).head? = some '*') := by
        rintro ⟨hc, hhead⟩
        cases s with
        | nil => exact hborder.elim (fun hlast => hlast (hc ▸ rfl)) fun hne => hne hhead
        | cons d s => exact hs ⟨hc, hhead⟩
      rw [← stripComments, ← stripComments, stripComments_cons hs, stripComments_cons hst]
      exact congrArg (c :: ·) (ih h (hborder.imp_left getLast?_ne_of_cons))
    | true =>
      cases s with
      | nil => simp [endsInComment] at h
      | cons d s =>
        have hs : ¬(c = '*' ∧ (d :: s).head? = some '/') := by
          rintro ⟨hc, hhead⟩
          exact hclose s rfl hc (by rw [Option.some.inj hhead])
        have hst : ¬(c = '*' ∧ (d :: s ++ t).head? = some '/') := hs
        rw [stripCommentsFrom_true_cons hs] at hborder
        rw [stripCommentsFrom_true_cons hs, stripCommentsFrom_true_cons hst]
        split at hborder
        · rename_i hc
          rw [if_pos hc, if_pos hc, ih h (hborder.imp_left getLast?_ne_of_cons), List.cons_append]
        · rename_i hc
          rw [if_neg hc, if_neg hc, ih h hborder]
  | case4 inside =>
    subst h
    rfl

/-- What begins with a mark that is no part of a comment's is stripped as from the start. -/
theorem stripComments_append_cons {s : Text} (h : endsInComment false s = false) {c : Char}
    (hslash : c ≠ '/') (hstar : c ≠ '*') (t : Text) :
    stripComments (s ++ c :: t) = stripComments s ++ c :: stripComments t := by
  have happend := stripCommentsFrom_append (t := c :: t) h (Or.inr (by simpa using hstar))
  rwa [← stripComments, ← stripComments, stripComments_cons fun hc => hslash hc.1] at happend

theorem newlines_cons_of_ne {c : Char} (hc : c ≠ '\n') (t : Text) :
    newlines (c :: t) = newlines t :=
  List.count_cons_of_ne hc

/-! ### The place at the end of a text -/

/-- **Where the reader is** after a text without comments. -/
inductive ReaderPlace where
  /-- At the top level. The flag says whether the fragment that is open there is blank so far. -/
  | top (blank : Bool)
  /-- In a block, with so many blocks open inside it, and a quote if one is open. -/
  | inside (depth : Nat) (quote : Option Char)
  deriving DecidableEq, Repr

namespace ReaderPlace

/-- The place after one more character. -/
def after : ReaderPlace → Char → ReaderPlace
  | top blank, c =>
    if c = '{' then inside 0 none else if endsFragment c then top true else top (blank && isBlank c)
  | inside depth quote, c =>
    if quote = none ∧ c = '}' ∧ depth = 0 then top true
    else inside (blocksAfter quote depth c) (quoteAfter quote c)

/-- **The place at the end of a text.** -/
def atEnd (place : ReaderPlace) (t : Text) : ReaderPlace := t.foldl after place

@[simp] theorem atEnd_nil (place : ReaderPlace) : place.atEnd [] = place := rfl

@[simp] theorem atEnd_cons (place : ReaderPlace) (c : Char) (t : Text) :
    place.atEnd (c :: t) = (place.after c).atEnd t := rfl

theorem atEnd_append (place : ReaderPlace) (s t : Text) :
    place.atEnd (s ++ t) = (place.atEnd s).atEnd t :=
  List.foldl_append

/-- A fragment that does not end is blank if it was and goes on with blanks. -/
theorem top_atEnd {lead : Text} (hlead : ∀ c ∈ lead, endsFragment c = false) (blank : Bool) :
    (top blank).atEnd lead = top (blank && isAllBlank lead) := by
  induction lead generalizing blank with
  | nil => simp
  | cons c lead ih =>
    have hc := hlead c (List.mem_cons_self ..)
    have hbrace : c ≠ '{' := by
      rintro rfl
      exact absurd hc (by decide)
    rw [atEnd_cons, after, if_neg hbrace, if_neg (by simp [hc]),
      ih fun c hc => hlead c (List.mem_cons_of_mem _ hc), isAllBlank_cons, Bool.and_assoc]

/-- **A block that is left ends in the text**, and ends there whatever comes after. -/
theorem exists_of_inside_atEnd {depth : Nat} {quote : Option Char} {s : Text} {blank : Bool}
    (h : (inside depth quote).atEnd s = top blank) :
    ∃ body rest, (∀ t, splitBlock depth quote (s ++ t) = (body, rest ++ t)) ∧
      (top true).atEnd rest = top blank ∧ newlines s = newlines body + newlines rest := by
  induction s generalizing depth quote with
  | nil => simp at h
  | cons c s ih =>
    rw [atEnd_cons, after] at h
    split at h
    · rename_i hc
      refine ⟨[], s, fun t => ?_, h, ?_⟩
      · rw [List.cons_append, splitBlock, if_pos hc]
      · rw [newlines_cons_of_ne (by simp [hc.2.1]), newlines_nil, Nat.zero_add]
    · rename_i hc
      obtain ⟨body, rest, hsplit, hrest, hlines⟩ := ih h
      refine ⟨c :: body, rest, fun t => ?_, hrest, ?_⟩
      · rw [List.cons_append, splitBlock, if_neg hc, hsplit]
      · rw [← List.singleton_append, newlines_append, hlines, ← Nat.add_assoc, ← newlines_append,
          List.singleton_append]

end ReaderPlace

/-! ### Fragments of texts in a row -/

/-- Blanks in front of a text do not change the line where it begins. -/
theorem lineOf_blank_append {start : Text} (hstart : isAllBlank start = true) (line : Nat)
    (t : Text) : lineOf line (start ++ t) = lineOf (line + newlines start) t := by
  rw [lineOf, lineOf, List.takeWhile_append_of_pos fun c => isBlank_of_mem_isAllBlank hstart,
    newlines_append, Nat.add_assoc]

/-- **Blanks in front of a text only move it down.** -/
theorem fragments_blank_append {start : Text} (hstart : isAllBlank start = true) (line : Nat)
    (t : Text) : fragments line (start ++ t) = fragments (line + newlines start) t := by
  have hends : ∀ {lead : Text}, (∀ c ∈ lead, endsFragment c = false) →
      ∀ c ∈ start ++ lead, endsFragment c = false := fun hlead c hc =>
    (List.mem_append.mp hc).elim
      (fun hc => endsFragment_of_isBlank (isBlank_of_mem_isAllBlank hstart hc)) (hlead c)
  have hline := lineOf_blank_append hstart line
  have hnext (lead : Text) :
      line + newlines (start ++ lead) = line + newlines start + newlines lead := by
    rw [newlines_append, Nat.add_assoc]
  induction t using fragments_induction with
  | last t ht =>
    rw [fragments_last (hends ht), fragments_last ht, hline, trim_blank_append hstart]
  | block lead rest hlead =>
    rw [← List.append_assoc, fragments_open (hends hlead), fragments_open hlead, hline, hnext,
      trim_blank_append hstart]
  | statement lead rest hlead =>
    rw [← List.append_assoc, fragments_semicolon (hends hlead), fragments_semicolon hlead, hline,
      hnext, trim_blank_append hstart]
  | stray lead rest hlead =>
    rw [← List.append_assoc, fragments_close (hends hlead), fragments_close hlead, hnext]

/-- **Reading goes on in the fragment that is open at the end of a text**, with its beginning and
after the fragments that end in the text. -/
theorem exists_fragments_append_of_top {s : Text} {blank : Bool}
    (h : (ReaderPlace.top true).atEnd s = .top blank) (line : Nat) :
    ∃ fs line' lead, (∀ c ∈ lead, endsFragment c = false) ∧ isAllBlank lead = blank ∧
      line' + newlines lead = line + newlines s ∧
      ∀ t, fragments line (s ++ t) = fs ++ fragments line' (lead ++ t) := by
  induction s using fragments_induction generalizing line with
  | last s hs =>
    rw [ReaderPlace.top_atEnd hs, Bool.true_and] at h
    exact ⟨[], line, s, hs, ReaderPlace.top.inj h, rfl, fun t => rfl⟩
  | block lead rest hlead ih =>
    rw [ReaderPlace.atEnd_append, ReaderPlace.top_atEnd hlead, ReaderPlace.atEnd_cons] at h
    obtain ⟨body, rest', hsplit, hrest, hlines⟩ := ReaderPlace.exists_of_inside_atEnd h
    have hself : splitBlock 0 none rest = (body, rest') := by simpa using hsplit []
    rw [hself] at ih
    obtain ⟨fs, line', lead', hlead', hblank, hline, happend⟩ :=
      ih hrest (line + newlines lead + newlines body)
    refine ⟨.block (lineOf line lead) (trim lead) (line + newlines lead) body :: fs, line', lead',
      hlead', hblank, ?_, fun t => ?_⟩
    · rw [hline, newlines_append, newlines_cons_of_ne (by decide), hlines]
      simp only [Nat.add_assoc]
    · rw [List.append_assoc, List.cons_append, fragments_open hlead, hsplit, happend,
        List.cons_append]
  | statement lead rest hlead ih =>
    rw [ReaderPlace.atEnd_append, ReaderPlace.top_atEnd hlead, ReaderPlace.atEnd_cons] at h
    obtain ⟨fs, line', lead', hlead', hblank, hline, happend⟩ := ih h (line + newlines lead)
    refine ⟨.statement (lineOf line lead) (trim lead) :: fs, line', lead', hlead', hblank, ?_,
      fun t => ?_⟩
    · rw [hline, newlines_append, newlines_cons_of_ne (by decide), Nat.add_assoc]
    · rw [List.append_assoc, List.cons_append, fragments_semicolon hlead, happend,
        List.cons_append]
  | stray lead rest hlead ih =>
    rw [ReaderPlace.atEnd_append, ReaderPlace.top_atEnd hlead, ReaderPlace.atEnd_cons] at h
    obtain ⟨fs, line', lead', hlead', hblank, hline, happend⟩ := ih h (line + newlines lead)
    refine ⟨fs, line', lead', hlead', hblank, ?_, fun t => ?_⟩
    · rw [hline, newlines_append, newlines_cons_of_ne (by decide), Nat.add_assoc]
    · rw [List.append_assoc, List.cons_append, fragments_close hlead, happend]

/-- **The fragments of a text that ends at the top level are those of any text that begins with
it**, up to the blank one that is open at its end. -/
theorem exists_fragments_append {s : Text} (h : (ReaderPlace.top true).atEnd s = .top true)
    (line : Nat) :
    ∃ fs last, fragments line s = fs ++ [.statement last []] ∧
      ∀ t, fragments line (s ++ t) = fs ++ fragments (line + newlines s) t := by
  obtain ⟨fs, line', lead, -, hblank, hline, happend⟩ := exists_fragments_append_of_top h line
  obtain ⟨last, hlast⟩ := fragments_of_isAllBlank hblank line'
  refine ⟨fs, last, ?_, fun t => ?_⟩
  · simpa [hlast] using happend []
  · rw [happend, fragments_blank_append hblank, hline]

/-! ### Rules of texts in a row -/

namespace Rule

/-- **Rules in a row.** A rule without selectors at the end of the first rules and one at the start
of the second ones become one, at the line of the first. -/
def join : List Rule → List Rule → List Rule
  | [], ss => ss
  | [r], ss => mergeInto r ss
  | r :: r' :: rs, ss => r :: join (r' :: rs) ss

@[simp] theorem join_nil (ss : List Rule) : join [] ss = ss := rfl

@[simp] theorem join_singleton (r : Rule) (ss : List Rule) : join [r] ss = mergeInto r ss := rfl

theorem join_cons {rs : List Rule} (h : rs ≠ []) (r : Rule) (ss : List Rule) :
    join (r :: rs) ss = r :: join rs ss := by
  obtain ⟨r', rs, rfl⟩ := List.exists_cons_of_ne_nil h
  rfl

section Merge

variable {r s : Rule} (ss : List Rule)

/-- Two rules that both have no selectors become one. -/
theorem mergeInto_cons_of_loose (hr : r.selectors = []) (hs : s.selectors = []) :
    mergeInto r (s :: ss) = { r with declarations := r.declarations ++ s.declarations } :: ss := by
  rw [mergeInto, if_pos (by simp [hr, hs])]

theorem mergeInto_cons_of_not_loose (h : ¬(r.selectors = [] ∧ s.selectors = [])) :
    mergeInto r (s :: ss) = r :: s :: ss := by
  rw [mergeInto, if_neg (by simpa using h)]

/-- It does not matter which two of three rules in a row are merged first. -/
theorem mergeInto_mergeInto_of_loose (hr : r.selectors = []) (hs : s.selectors = []) :
    mergeInto r (mergeInto s ss) =
      mergeInto { r with declarations := r.declarations ++ s.declarations } ss := by
  cases ss with
  | nil => exact mergeInto_cons_of_loose [] hr hs
  | cons u ss =>
    by_cases hu : u.selectors = []
    · rw [mergeInto_cons_of_loose ss hs hu, mergeInto_cons_of_loose ss hr (by exact hs),
        mergeInto_cons_of_loose ss (by exact hr) hu, List.append_assoc]
    · rw [mergeInto_cons_of_not_loose ss fun h => hu h.2, mergeInto_cons_of_loose _ hr hs,
        mergeInto_cons_of_not_loose ss fun h => hu h.2]

theorem mergeInto_mergeInto_of_not_loose (h : ¬(r.selectors = [] ∧ s.selectors = [])) :
    mergeInto r (mergeInto s ss) = r :: mergeInto s ss := by
  cases ss with
  | nil => exact mergeInto_cons_of_not_loose [] h
  | cons u ss =>
    by_cases hu : s.selectors = [] ∧ u.selectors = []
    · rw [mergeInto_cons_of_loose ss hu.1 hu.2, mergeInto_cons_of_not_loose ss (by exact h)]
    · rw [mergeInto_cons_of_not_loose ss hu, mergeInto_cons_of_not_loose _ h]

end Merge

/-- **What merging keeps**: what holds of rules holds of the merged ones, if it goes from two rules
without selectors to the rule that they become. -/
theorem forall_mem_mergeLoose {P : Rule → Prop}
    (hmerge : ∀ r s : Rule, r.selectors = [] → s.selectors = [] → P r → P s →
      P { r with declarations := r.declarations ++ s.declarations })
    {rs : List Rule} (h : ∀ r ∈ rs, P r) : ∀ r ∈ mergeLoose rs, P r := by
  induction rs with
  | nil => simp
  | cons r rs ih =>
    obtain ⟨hr, hrs⟩ := List.forall_mem_cons.mp h
    have hmerged := ih hrs
    rw [mergeLoose_cons]
    generalize mergeLoose rs = ss at hmerged
    cases ss with
    | nil => simpa [mergeInto] using hr
    | cons s ss =>
      obtain ⟨hs, hss⟩ := List.forall_mem_cons.mp hmerged
      by_cases hloose : r.selectors = [] ∧ s.selectors = []
      · rw [mergeInto_cons_of_loose ss hloose.1 hloose.2]
        exact List.forall_mem_cons.mpr ⟨hmerge r s hloose.1 hloose.2 hr hs, hss⟩
      · rw [mergeInto_cons_of_not_loose ss hloose]
        exact List.forall_mem_cons.mpr ⟨hr, hmerged⟩

/-- What a rule becomes in front of rules depends on the first of them only. -/
theorem mergeInto_join (r : Rule) (rs ss : List Rule) :
    mergeInto r (join rs ss) = join (mergeInto r rs) ss := by
  match rs with
  | [] => rfl
  | [s] =>
    by_cases h : r.selectors = [] ∧ s.selectors = []
    · rw [join_singleton, mergeInto_mergeInto_of_loose ss h.1 h.2,
        mergeInto_cons_of_loose [] h.1 h.2, join_singleton]
    · rw [join_singleton, mergeInto_mergeInto_of_not_loose ss h,
        mergeInto_cons_of_not_loose [] h, join_cons (List.cons_ne_nil s []), join_singleton]
  | s :: s' :: rs =>
    have hne : s' :: rs ≠ [] := List.cons_ne_nil _ _
    rw [join_cons hne]
    by_cases h : r.selectors = [] ∧ s.selectors = []
    · rw [mergeInto_cons_of_loose _ h.1 h.2, mergeInto_cons_of_loose _ h.1 h.2, join_cons hne]
    · rw [mergeInto_cons_of_not_loose _ h, mergeInto_cons_of_not_loose _ h,
        join_cons (List.cons_ne_nil s _), join_cons hne]

/-- **Merging reaches over the border between two lists, and no further.** -/
theorem mergeLoose_append (rs ss : List Rule) :
    mergeLoose (rs ++ ss) = join (mergeLoose rs) (mergeLoose ss) := by
  induction rs with
  | nil => rfl
  | cons r rs ih => rw [List.cons_append, mergeLoose_cons, ih, mergeInto_join, mergeLoose_cons]

end Rule

/-! ### The theorem -/

/-- **A text that ends at the top level**, with nothing but blanks in front of the next fragment,
and outside comments. -/
structure EndsAtTop (s : Text) : Prop where
  /-- It ends outside comments. -/
  uncommented : endsInComment false s = false
  /-- It ends outside blocks, and what follows its last fragment is blank. -/
  top : (ReaderPlace.top true).atEnd (stripComments s) = .top true

instance (s : Text) : Decidable (EndsAtTop s) :=
  decidable_of_iff
    (endsInComment false s = false ∧ (ReaderPlace.top true).atEnd (stripComments s) = .top true)
    ⟨fun h => ⟨h.1, h.2⟩, fun h => ⟨h.uncommented, h.top⟩⟩

/-- No slash is left at the end of such a text. -/
theorem getLast?_ne_slash {s : Text} (h : (ReaderPlace.top true).atEnd s = .top true) :
    s.getLast? ≠ some '/' := by
  intro hlast
  obtain ⟨u, rfl⟩ := List.getLast?_eq_some_iff.mp hlast
  rw [ReaderPlace.atEnd_append, ReaderPlace.atEnd_cons, ReaderPlace.atEnd_nil] at h
  cases hu : (ReaderPlace.top true).atEnd u with
  | top blank =>
    rw [hu, ReaderPlace.after, if_neg (by decide), if_neg (by decide)] at h
    simp [isBlank] at h
  | inside depth quote =>
    rw [hu, ReaderPlace.after, if_neg (by simp)] at h
    simp at h

theorem EndsAtTop.stripComments_append {s : Text} (h : EndsAtTop s) (t : Text) :
    stripComments (s ++ t) = stripComments s ++ stripComments t :=
  stripCommentsFrom_append h.uncommented (Or.inl (getLast?_ne_slash h.top))

/-- **The fragments of texts in a row**, as far as rules and reports are concerned. -/
theorem EndsAtTop.fragmentsOf_append {s : Text} (h : EndsAtTop s) (t : Text) :
    let move := newlines s
    (Stylesheet.fragmentsOf (s ++ t)).flatMap Fragment.rules =
        (Stylesheet.fragmentsOf s).flatMap Fragment.rules
          ++ ((Stylesheet.fragmentsOf t).flatMap Fragment.rules).map (Rule.mapLine (· + move)) ∧
      (Stylesheet.fragmentsOf (s ++ t)).flatMap Fragment.diagnostics =
        (Stylesheet.fragmentsOf s).flatMap Fragment.diagnostics
          ++ ((Stylesheet.fragmentsOf t).flatMap Fragment.diagnostics).map
            (Diagnostic.mapLine (· + move)) := by
  obtain ⟨fs, last, hfragments, happend⟩ := exists_fragments_append h.top 1
  have hrules : (Fragment.statement last []).rules = [] := rfl
  have hdiagnostics : (Fragment.statement last []).diagnostics = [] := rfl
  simp only [Stylesheet.fragmentsOf, h.stripComments_append, happend, hfragments,
    newlines_stripComments, List.flatMap_append, List.flatMap_singleton, hrules, hdiagnostics,
    List.append_nil, flatMap_rules_fragments_add, flatMap_diagnostics_fragments_add, and_self]

/-- **Reading goes on after a text that ends at the top level as it began.** The rules of two texts
in a row are those of the first and those of the second, moved down by the lines of the first;
rules without selectors that meet become one. The reports are those of the first text and those
of the second, moved down likewise. -/
theorem ofText_append (s t : Text) (h : EndsAtTop s) :
    (Stylesheet.ofText (s ++ t)).rules =
        Rule.join (Stylesheet.ofText s).rules
          ((Stylesheet.ofText t).rules.map (Rule.mapLine (· + newlines s))) ∧
      (Stylesheet.ofText (s ++ t)).diagnostics =
        (Stylesheet.ofText s).diagnostics
          ++ (Stylesheet.ofText t).diagnostics.map (Diagnostic.mapLine (· + newlines s)) := by
  obtain ⟨hrules, hdiagnostics⟩ := h.fragmentsOf_append t
  refine ⟨?_, hdiagnostics⟩
  simp only [Stylesheet.ofText]
  rw [hrules, Rule.mergeLoose_append, Rule.mergeLoose_map_mapLine]

/-- A text with a stray brace, a semicolon in quotes in a block, a brace in quotes, an at-rule after
a declaration outside every block, and a comment at its end. -/
def tangle : Text :=
  "\x7d p \x7b a: '\x7d;'; q \x7b\n\x7d \x7d --x: 1;\n@media y \x7b \x7b\x7d \x7d /* ; */".toList

theorem ofText_append_tangle :
    EndsAtTop tangle ∧
      (Stylesheet.ofText (tangle ++ "*/ z; --y: 2".toList)).rules =
        Rule.join (Stylesheet.ofText tangle).rules
          ((Stylesheet.ofText "*/ z; --y: 2".toList).rules.map (Rule.mapLine (· + 2))) := by
  have htangle : EndsAtTop tangle := by decide
  exact ⟨htangle, (ofText_append tangle "*/ z; --y: 2".toList htangle).1⟩

end CssResources
