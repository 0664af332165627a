import CssResources.Proofs.Stylesheet.Concatenation
import CssResources.Proofs.Stylesheet.Writing

/-!
# Declarations outside every block

Declarations may stand in a block or outside every block, and two different scanners read them.
In a block, quotes and parentheses hide a semicolon; outside every block **nothing hides one**.
On texts without braces and comments each scanner is a cut of the text, followed by the same
reading of each part (`CssResources.saying?`):

| where the text stands | its declarations are what is said by |
|---|---|
| in a block | its `CssResources.bodySegments` (`CssResources.root_content_eq`) |
| outside every block | its parts between all semicolons (`CssResources.loose_content_eq`) |

The blanks around a part do not matter, and what looks like an at-rule says nothing in either
place. So both scanners read the same declarations from a text that hides no semicolon
(`CssResources.ShowsSemicolons`, `CssResources.loose_content_eq_root_content`). They part at a
semicolon in parentheses (`CssResources.loose_content_ne_root_content_icon`): outside every
block the address of an image is cut off in the middle.
-/

namespace CssResources

/-! ### What a text says as a declaration -/

/-- **What a text says as a declaration**: a property and its value, if it is one. -/
def saying? (t : Text) : Option (Text × Text) :=
  (Declaration.ofText? 0 t).map fun d => (d.property, d.value)

/-- What is said does not depend on the line. -/
theorem map_ofText?_eq_saying? (line : Nat) (t : Text) :
    ((Declaration.ofText? line t).map fun d => (d.property, d.value)) = saying? t := by
  have hline := Declaration.ofText?_mapLine (fun _ => line) 0 t
  rw [saying?, hline, Option.map_map]
  rfl

/-- **The blanks around a declaration do not matter.** -/
theorem ofText?_trim (line : Nat) (t : Text) :
    Declaration.ofText? line (trim t) = Declaration.ofText? line t := by
  obtain ⟨start, stop, hstart, hstop, ht⟩ := exists_eq_append_trim t
  by_cases hcolon : ':' ∈ trim t
  · obtain ⟨before, after, hsplit, hbefore⟩ := List.eq_append_cons_of_mem hcolon
    have hbefore' : ':' ∉ start ++ before := by
      rw [List.mem_append, not_or]
      exact ⟨not_mem_of_isAllBlank hstart (by decide), hbefore⟩
    have ht' : t = (start ++ before) ++ ':' :: (after ++ stop) := by
      rw [ht, hsplit]
      simp
    have hafter : trim (after ++ stop) = trim after :=
      trim_between_blanks isAllBlank_nil hstop after
    rw [Declaration.ofText?, Declaration.ofText?, hsplit, splitOnce?_append hbefore, ht',
      splitOnce?_append hbefore']
    simp only [Option.bind_eq_bind, Option.bind_some, trim_blank_append hstart, hafter]
  · have hcolon' : ':' ∉ t := by
      rw [ht, List.mem_append, List.mem_append, not_or, not_or]
      exact ⟨not_mem_of_isAllBlank hstart (by decide), hcolon,
        not_mem_of_isAllBlank hstop (by decide)⟩
    rw [Declaration.ofText?, Declaration.ofText?, splitOnce?_of_not_mem hcolon,
      splitOnce?_of_not_mem hcolon']

/-- **An at-rule says nothing**: no property begins like one. -/
theorem ofText?_of_isAtRule {t : Text} (h : isAtRule (trim t) = true) (line : Nat) :
    Declaration.ofText? line t = none := by
  obtain ⟨rest, hrest⟩ := List.head?_eq_some_iff.mp (beq_iff_eq.mp h)
  rw [← ofText?_trim, hrest, Declaration.ofText?]
  by_cases hcolon : ':' ∈ rest
  · obtain ⟨before, after, rfl, hbefore⟩ := List.eq_append_cons_of_mem hcolon
    have hbefore' : ':' ∉ '@' :: before := by simp [hbefore]
    rw [← List.cons_append, splitOnce?_append hbefore']
    -- the property has the mark of at-rules, which no name has
    have hat : '@' ∈ trim ('@' :: before) :=
      Classical.byContradiction fun hnot =>
        not_mem_of_not_mem_trim (by decide) hnot (List.mem_cons_self ..)
    have hname : (trim ('@' :: before)).all Declaration.isNameChar = false :=
      List.all_eq_false.mpr ⟨'@', hat, by decide⟩
    simp only [Option.bind_eq_bind, Option.bind_some, hname, Bool.not_false, Bool.or_true, if_true]
  · rw [splitOnce?_of_not_mem (by simp [hcolon])]
    rfl

/-- **What rules say**, declaration by declaration, whatever their selectors. -/
def sayings (rs : List Rule) : List (Text × Text) := rs.flatMap fun r => r.content.2

theorem sayings_append (rs ss : List Rule) : sayings (rs ++ ss) = sayings rs ++ sayings ss :=
  List.flatMap_append

theorem Rule.flatMap_declarations_mergeInto (r : Rule) (rs : List Rule) :
    (mergeInto r rs).flatMap declarations = r.declarations ++ rs.flatMap declarations := by
  cases rs with
  | nil => rfl
  | cons s rs =>
    rw [mergeInto]
    split
    · simp
    · rfl

/-- Rules that are merged have the declarations that they had. -/
theorem Rule.flatMap_declarations_mergeLoose (rs : List Rule) :
    (mergeLoose rs).flatMap declarations = rs.flatMap declarations := by
  induction rs with
  | nil => rfl
  | cons r rs ih =>
    rw [mergeLoose_cons, flatMap_declarations_mergeInto, ih, List.flatMap_cons]

/-- Rules that are merged say what they said. -/
theorem sayings_mergeLoose (rs : List Rule) : sayings (Rule.mergeLoose rs) = sayings rs := by
  have hmap (rs : List Rule) :
      sayings rs = (rs.flatMap Rule.declarations).map fun d => (d.property, d.value) := by
    rw [List.map_flatMap]
    rfl
  rw [hmap, Rule.flatMap_declarations_mergeLoose, ← hmap]

/-! ### Outside every block -/

/-- **A statement says what its text says**, and an at-rule nothing. -/
theorem sayings_statement (line : Nat) (t : Text) :
    sayings (Fragment.statement line (trim t)).rules = (saying? t).toList := by
  rw [Fragment.rules, ← map_ofText?_eq_saying? line t]
  split
  · rename_i hat
    rw [ofText?_of_isAtRule hat]
    rfl
  · rw [ofText?_trim]
    cases Declaration.ofText? line t <;> rfl

theorem Fragment.selectors_of_statement {line : Nat} {t : Text} {r : Rule}
    (h : r ∈ (Fragment.statement line t).rules) : r.selectors = [] := by
  rcases rules_statement_cases line t with hnone | ⟨d, -, hrules⟩
  · simp [hnone] at h
  · rw [hrules] at h
    rw [List.mem_singleton.mp h]

section Loose

variable {t : Text} (hopen : '{' ∉ t) (hclose : '}' ∉ t)
include hopen hclose

/-- **A text without braces is a row of statements**, one for each part between its semicolons. -/
theorem exists_fragments_eq_map (line : Nat) :
    ∃ lines : List (Nat × Text), lines.map Prod.snd = splitAll (· == ';') t ∧
      fragments line t = lines.map fun l => .statement l.1 (trim l.2) := by
  have hsemicolon {lead : Text} (hlead : ∀ c ∈ lead, endsFragment c = false) :
      ∀ c ∈ lead, (c == ';') = false := fun c hc => by
    refine beq_eq_false_iff_ne.mpr ?_
    rintro rfl
    exact absurd (hlead _ hc) (by decide)
  induction t using fragments_induction generalizing line with
  | last t ht =>
    refine ⟨[(lineOf line t, t)], ?_, fragments_last ht line⟩
    rw [splitAll_of_forall (hsemicolon ht)]
    rfl
  | block lead rest hlead => simp at hopen
  | statement lead rest hlead ih =>
    simp only [List.mem_append, List.mem_cons, not_or] at hopen hclose
    obtain ⟨lines, hparts, hfragments⟩ := ih hopen.2.2 hclose.2.2 (line + newlines lead)
    refine ⟨(lineOf line lead, lead) :: lines, ?_, ?_⟩
    · rw [splitAll_append_cons (hsemicolon hlead) rfl, List.map_cons, hparts]
    · rw [fragments_semicolon hlead, hfragments, List.map_cons]
  | stray lead rest hlead => simp at hclose

/-- **The declarations outside every block** are what the parts between semicolons say. -/
theorem loose_content_eq (hcomment : ¬"/*".toList <:+: t) :
    (∀ r ∈ (Stylesheet.ofText t).rules, r.selectors = []) ∧
      sayings (Stylesheet.ofText t).rules = (splitAll (· == ';') t).filterMap saying? := by
  obtain ⟨lines, hparts, hfragments⟩ := exists_fragments_eq_map hopen hclose 1
  have hstrip := stripComments_of_not_comment hcomment
  rw [Stylesheet.ofText, Stylesheet.fragmentsOf, hstrip, hfragments]
  constructor
  · refine Rule.forall_mem_mergeLoose (fun _ _ hr _ _ _ => hr) fun r hr => ?_
    obtain ⟨fragment, hfragment, hr⟩ := List.mem_flatMap.mp hr
    obtain ⟨l, -, rfl⟩ := List.mem_map.mp hfragment
    exact Fragment.selectors_of_statement hr
  · rw [sayings_mergeLoose, ← hparts]
    clear hparts hfragments
    induction lines with
    | nil => rfl
    | cons l lines ih =>
      rw [List.map_cons, List.flatMap_cons, sayings_append, sayings_statement, ih, List.map_cons,
        List.filterMap_cons]
      cases saying? l.2 <;> rfl

end Loose

/-! ### In a block -/

/-- What segments say, wherever they begin. -/
theorem map_segmentDeclarations (line : Nat) (ss : List Text) :
    ((segmentDeclarations line ss).map fun d => (d.property, d.value)) = ss.filterMap saying? := by
  have hlines := congrArg (List.map fun d => (d.property, d.value))
    (map_noLine_segmentDeclarations line ss)
  rwa [List.map_map, List.map_filterMap] at hlines

/-- **A text as the block of the root.** -/
def inRoot (t : Text) : Text := ":root \x7b".toList ++ (t ++ ['\x7d'])

/-- **The declarations of a block** are what its segments say. -/
theorem root_content_eq {t : Text} (hblock : StaysInBlock t) (hcomment : ¬"/*".toList <:+: t) :
    ∃ r, (Stylesheet.ofText (inRoot t)).rules = [r] ∧ r.selectors = [":root".toList] ∧
      sayings [r] = (bodySegments 0 none t).filterMap saying? := by
  have hstrip : stripComments (inRoot t) = inRoot t := by
    have hhead : IsUncommented ":root \x7b".toList := isUncommented_of_not_mem (by decide)
    have hend : IsUncommented ['\x7d'] := isUncommented_of_not_mem (by decide)
    exact (hhead.append (hend.append_cons hcomment (by decide))).stripComments_eq
  have hlead : ∀ c ∈ ":root ".toList, endsFragment c = false := by simp [endsFragment]
  have hfragments : fragments 1 (inRoot t) =
      .block 1 ":root".toList 1 t :: fragments (1 + newlines t) [] :=
    fragments_block hlead hblock.closesBlocks 1 []
  have hselectors : selectorsOf ":root".toList = [":root".toList] := by decide
  have hrules : (Fragment.block 1 ":root".toList 1 t).rules =
      [{ selectors := [":root".toList], declarations := declarationsOf 1 t, line := 1 }] := by
    rw [Fragment.rules, if_neg (by decide), hselectors, hblock.dropNested_eq]
  refine ⟨{ selectors := [":root".toList], declarations := declarationsOf 1 t, line := 1 }, ?_, rfl,
    ?_⟩
  · rw [Stylesheet.ofText, Stylesheet.fragmentsOf, hstrip, hfragments, List.flatMap_cons, hrules,
      flatMap_rules_fragments_nil]
    rfl
  · rw [← map_segmentDeclarations 1, ← declarationsOf]
    simp [sayings, Rule.content]

/-! ### Both -/

/-- **A text hides no semicolon**: all of them stand outside quotes and parentheses. -/
def ShowsSemicolons (t : Text) : Prop :=
  (Brackets.parens.outside 0 (unquoted none t)).count ';' = t.count ';'

instance (t : Text) : Decidable (ShowsSemicolons t) := inferInstanceAs (Decidable (_ = _))

/-- No more semicolons stand outside quotes and parentheses than there are. -/
theorem count_outside_unquoted_le (depth : Nat) (quote : Option Char) (t : Text) :
    (Brackets.parens.outside depth (unquoted quote t)).count ';' ≤ t.count ';' :=
  ((Brackets.outside_sublist _ depth _).trans (unquoted_sublist quote t)).count_le ';'

/-- The segments of a text that hides no semicolon are its parts, from inside parentheses and
quotes on. -/
theorem bodySegments_eq_splitAll {depth : Nat} {quote : Option Char} {t : Text}
    (h : (Brackets.parens.outside depth (unquoted quote t)).count ';' = t.count ';') :
    bodySegments depth quote t = splitAll (· == ';') t := by
  induction t generalizing depth quote with
  | nil => rfl
  | cons c t ih =>
    -- a semicolon that is hidden would be missed in the count
    have hle := fun depth quote => count_outside_unquoted_le depth quote t
    cases quote with
    | some q =>
      have hc : c ≠ ';' := by
        rintro rfl
        have hrest := hle depth (quoteAfter (some q) ';')
        rw [unquoted_some_cons, List.count_cons_self] at h
        omega
      rw [unquoted_some_cons, List.count_cons_of_ne hc] at h
      rw [bodySegments, if_neg (by simp), Option.isSome_some, if_pos rfl, ih h, splitAll,
        if_neg (by simpa using hc)]
    | none =>
      rw [unquoted_none_cons, Brackets.outside, Brackets.getD_after?, List.count_append] at h
      by_cases hc : c = ';'
      · subst hc
        have hdepth : depth = 0 := by
          by_contra hdepth
          have hrest := hle (depthAfter depth ';') (quoteAfter none ';')
          rw [if_neg hdepth, List.count_nil, List.count_cons_self] at h
          omega
        subst hdepth
        rw [if_pos rfl, List.count_singleton_self, List.count_cons_self, Nat.add_comm,
          Nat.add_right_cancel_iff] at h
        rw [bodySegments, if_pos ⟨rfl, rfl, rfl⟩, splitAll, if_pos (beq_self_eq_true _), ← ih h]
        rfl
      · have hsingle : (if depth = 0 then [c] else []).count ';' = 0 := by
          split <;> simp [hc]
        rw [hsingle, Nat.zero_add, List.count_cons_of_ne hc] at h
        rw [bodySegments, if_neg fun hcut => hc hcut.1, Option.isSome_none, if_neg (by simp), ih h,
          splitAll, if_neg (by simpa using hc)]

/-- **A text that hides no semicolon says the same in a block and outside every block**: its
declarations have the same properties and values, in the same order. -/
theorem loose_content_eq_root_content (t : Text) (hopen : '{' ∉ t) (hclose : '}' ∉ t)
    (hcomment : ¬"/*".toList <:+: t) (hquotes : quoteAtEnd none t = none)
    (hsemicolons : ShowsSemicolons t) :
    ∃ r, (Stylesheet.ofText (inRoot t)).rules = [r] ∧ r.selectors = [":root".toList] ∧
      (∀ s ∈ (Stylesheet.ofText t).rules, s.selectors = []) ∧
      sayings (Stylesheet.ofText t).rules = sayings [r] := by
  have hblock : StaysInBlock t :=
    ⟨hquotes, fun hmem => hopen ((unquoted_sublist none t).subset hmem),
      fun hmem => hclose ((unquoted_sublist none t).subset hmem)⟩
  obtain ⟨hselectors, hloose⟩ := loose_content_eq hopen hclose hcomment
  obtain ⟨r, hrules, hroot, hsayings⟩ := root_content_eq hblock hcomment
  refine ⟨r, hrules, hroot, hselectors, ?_⟩
  rw [hloose, hsayings, bodySegments_eq_splitAll hsemicolons]

/-- Declarations with a colon and a comma in quotes and parentheses, a part without a declaration,
and blanks around semicolons. -/
def plainTheme : Text := "--font: 'a: b' , c ;; x\n; Gap:calc(1px + (2px)) ".toList

theorem loose_content_eq_root_content_plain :
    ShowsSemicolons plainTheme ∧
      ∃ r, (Stylesheet.ofText (inRoot plainTheme)).rules = [r] ∧
        r.selectors = [":root".toList] ∧
        (∀ s ∈ (Stylesheet.ofText plainTheme).rules, s.selectors = []) ∧
        sayings (Stylesheet.ofText plainTheme).rules = sayings [r] := by
  have hsemicolons : ShowsSemicolons plainTheme := by decide
  have hcomment : ¬"/*".toList <:+: plainTheme := not_comment_of_not_mem (by decide)
  exact ⟨hsemicolons, loose_content_eq_root_content plainTheme (by decide) (by decide) hcomment
    (by decide) hsemicolons⟩

/-- A declaration with a semicolon in parentheses. -/
def iconTheme : Text := "--icon: url(data:image/png;base64,AA)".toList

/-- **A semicolon in parentheses ends a declaration outside every block**, though its parentheses
are balanced, and it does not end one in a block. -/
theorem loose_content_ne_root_content_icon :
    ('{' ∉ iconTheme ∧ '}' ∉ iconTheme ∧ ¬"/*".toList <:+: iconTheme ∧ '@' ∉ iconTheme ∧
        quoteAtEnd none iconTheme = none ∧
        Brackets.parens.IsBalanced (unquoted none iconTheme)) ∧
      sayings (Stylesheet.ofText iconTheme).rules =
        [("--icon".toList, "url(data:image/png".toList)] ∧
      sayings (Stylesheet.ofText (inRoot iconTheme)).rules =
        [("--icon".toList, "url(data:image/png;base64,AA)".toList)] ∧
      sayings (Stylesheet.ofText iconTheme).rules ≠
        sayings (Stylesheet.ofText (inRoot iconTheme)).rules := by
  have hopen : '{' ∉ iconTheme := by decide
  have hclose : '}' ∉ iconTheme := by decide
  have hcomment : ¬"/*".toList <:+: iconTheme := by decide +kernel
  have hblock : StaysInBlock iconTheme := ⟨by decide, by decide, by decide⟩
  have hloose : sayings (Stylesheet.ofText iconTheme).rules =
      [("--icon".toList, "url(data:image/png".toList)] := by
    rw [(loose_content_eq hopen hclose hcomment).2]
    decide +kernel
  have hroot : sayings (Stylesheet.ofText (inRoot iconTheme)).rules =
      [("--icon".toList, "url(data:image/png;base64,AA)".toList)] := by
    obtain ⟨r, hrules, -, hsayings⟩ := root_content_eq hblock hcomment
    rw [hrules, hsayings]
    decide +kernel
  refine ⟨⟨hopen, hclose, hcomment, by decide, hblock.quotes, by decide⟩, hloose, hroot, ?_⟩
  rw [hloose, hroot]
  decide

end CssResources
