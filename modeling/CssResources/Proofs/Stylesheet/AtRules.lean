import CssResources.Proofs.Stylesheet.Concatenation
import CssResources.Proofs.Stylesheet.Writing

/-!
# At-rules are passed over

An at-rule is a name after its mark, a prelude, and then a semicolon or a block
(`CssResources.AtRule`). At the top level it is one fragment, which gives no rule and is reported
by its name. So a stylesheet is read with the at-rule **as with blank lines in its place**, and
one report more (`CssResources.ofText_append_atRule`).

Two scanners have to agree on where it ends, and they do not know the same marks.

| part | read by | may hold |
|---|---|---|
| the prelude | `CssResources.fragments` | anything but a semicolon and braces |
| the block, inside | `CssResources.splitBlock` | what closes its blocks, braces in quotes too |

The top level knows neither quotes nor parentheses. A semicolon in them ends the at-rule in the
middle of its prelude, and the other half may be read as a declaration
(`CssResources.rules_importRule_ne_blank`).
-/

namespace CssResources

/-! ### At-rules as they are written -/

/-- A character of the name of an at-rule. -/
def isAtRuleNameChar (c : Char) : Bool := c.isAlphanum || c == '-'

/-- **An at-rule as it is written**, without its mark. -/
structure AtRule where
  /-- The name. -/
  name : Text
  /-- What stands between the name and the semicolon or the block. -/
  prelude : Text
  /-- The inside of the block, if there is one. -/
  body? : Option Text
  /-- The name has a character. -/
  name_ne_nil : name ≠ []
  /-- The name has letters, digits and dashes only. -/
  nameChars : ∀ c ∈ name, isAtRuleNameChar c = true
  /-- The name ends where the prelude begins. -/
  prelude_head : ∀ c ∈ prelude.head?, isAtRuleNameChar c = false

namespace AtRule

/-- The text of an at-rule in front of its semicolon or its block. -/
def lead (a : AtRule) : Text := '@' :: (a.name ++ a.prelude)

/-- The semicolon or the block of an at-rule. -/
def ending (a : AtRule) : Text :=
  match a.body? with
  | none => [';']
  | some body => '{' :: (body ++ ['}'])

/-- **The text of an at-rule.** -/
def written (a : AtRule) : Text := a.lead ++ a.ending

/-- **An at-rule ends where it shows**: the top level finds its end, and so does the block. -/
structure ShowsEnd (a : AtRule) : Prop where
  /-- It has no comment. -/
  uncommented : ¬"/*".toList <:+: a.written
  /-- Its prelude has no semicolon and no brace. -/
  prelude : ∀ c ∈ a.prelude, endsFragment c = false
  /-- Its block closes what it opens. -/
  body : ∀ body ∈ a.body?, ClosesBlocks body

variable {a : AtRule}

/-! ### The name of an at-rule -/

theorem isBlank_of_isAtRuleNameChar {c : Char} (h : isAtRuleNameChar c = true) :
    isBlank c = false := by
  rw [isAtRuleNameChar, Bool.or_eq_true, beq_iff_eq] at h
  rcases h with h | rfl
  · exact isBlank_of_isAlphanum h
  · decide

/-- The blanks that are trimmed away from an at-rule are those of its prelude. -/
theorem trim_lead (a : AtRule) : trim a.lead = '@' :: (a.name ++ trimEnd a.prelude) := by
  have hstart : trimStart a.lead = ('@' :: a.name) ++ a.prelude := rfl
  have hlast : ∀ c ∈ ('@' :: a.name).getLast?, isBlank c = false := fun c hc => by
    rcases List.mem_cons.mp (List.mem_of_mem_getLast? hc) with rfl | hname
    · decide
    · exact isBlank_of_isAtRuleNameChar (a.nameChars c hname)
  rw [trim, hstart, trimEnd_append hlast, List.cons_append]

theorem isAtRule_trim_lead (a : AtRule) : isAtRule (trim a.lead) = true := by
  rw [trim_lead]
  rfl

/-- What is left of a prelude begins as the prelude does. -/
theorem takeWhile_trimEnd_prelude (a : AtRule) :
    (trimEnd a.prelude).takeWhile isAtRuleNameChar = [] := by
  obtain ⟨blanks, -, hprelude⟩ := exists_eq_trimEnd_append a.prelude
  cases htrim : trimEnd a.prelude with
  | nil => rfl
  | cons c t =>
    have hc : c ∈ a.prelude.head? := by
      rw [hprelude, htrim]
      rfl
    exact List.takeWhile_cons_of_neg (by simp [a.prelude_head c hc])

/-- **An at-rule is reported by its name.** -/
theorem atRuleName_trim_lead (a : AtRule) : atRuleName (trim a.lead) = a.name := by
  obtain ⟨c, name, hname⟩ := List.exists_cons_of_ne_nil a.name_ne_nil
  have hc : (c == '@') = false := by
    refine beq_eq_false_iff_ne.mpr ?_
    rintro rfl
    exact absurd (a.nameChars '@' (by simp [hname])) (by decide)
  have hdrop : (trim a.lead).dropWhile (· == '@') = a.name ++ trimEnd a.prelude := by
    rw [trim_lead, List.dropWhile_cons_of_pos (by decide), hname, List.cons_append,
      List.dropWhile_cons_of_neg (by simp [hc])]
  show ((trim a.lead).dropWhile (· == '@')).takeWhile isAtRuleNameChar = a.name
  rw [hdrop, List.takeWhile_append_of_pos a.nameChars, takeWhile_trimEnd_prelude, List.append_nil]

/-! ### The fragment of an at-rule -/

namespace ShowsEnd

theorem endsFragment_lead (h : a.ShowsEnd) : ∀ c ∈ a.lead, endsFragment c = false := by
  intro c hc
  rcases List.mem_cons.mp hc with rfl | hc
  · decide
  rcases List.mem_append.mp hc with hname | hprelude
  · refine Bool.eq_false_iff.mpr fun hends => ?_
    have hchar := a.nameChars c hname
    rcases endsFragment_iff.mp hends with (rfl | rfl) | rfl <;> exact absurd hchar (by decide)
  · exact h.prelude c hprelude

/-- **An at-rule is one fragment**, which gives no rule and the report of its name. -/
theorem exists_fragments_append (h : a.ShowsEnd) (line : Nat) (t : Text) :
    ∃ fragment : Fragment, fragment.rules = [] ∧
      fragment.diagnostics = [.unsupportedAtRule line a.name] ∧
      fragments line (a.written ++ t) = fragment :: fragments (line + newlines a.written) t := by
  have hline : lineOf line a.lead = line := rfl
  have hat : isAtRule (trim a.lead) = true := a.isAtRule_trim_lead
  have hname : atRuleName (trim a.lead) = a.name := a.atRuleName_trim_lead
  rw [written, ending, newlines_append, List.append_assoc]
  cases hbody : a.body? with
  | none =>
    refine ⟨.statement line (trim a.lead), ?_, ?_, ?_⟩
    · rw [Fragment.rules, if_pos hat]
    · rw [Fragment.diagnostics, if_pos hat, hname]
    · exact hline ▸ fragments_semicolon h.endsFragment_lead line t
  | some body =>
    refine ⟨.block line (trim a.lead) (line + newlines a.lead) body, ?_, ?_, ?_⟩
    · rw [Fragment.rules, if_pos hat]
    · rw [Fragment.diagnostics, if_pos hat, hname]
    · have hlines : newlines ('{' :: (body ++ ['}'])) = newlines body := by
        rw [newlines_cons_of_ne (by decide), newlines_append]
        rfl
      have hblock := fragments_block h.endsFragment_lead (h.body body hbody) line t
      simpa [hline, hlines, Nat.add_assoc] using hblock

/-- No comment begins in an at-rule, or on the border to what follows it. -/
theorem isUncommented (h : a.ShowsEnd) : IsUncommented a.written := fun t => by
  have hending : a.ending.getLast? = some ';' ∨ a.ending.getLast? = some '}' := by
    rw [ending]
    cases a.body? with
    | none => exact Or.inl rfl
    | some body => exact Or.inr (List.getLast?_concat (l := '{' :: body))
  have hlast : a.written.getLast? ≠ some '/' := by
    rw [written, List.getLast?_append]
    rcases hending with hending | hending
    · simp [hending]
    · simp [hending]
  exact stripComments_append h.uncommented (Or.inl hlast)

/-- **A text is read after an at-rule as after blank lines.** -/
theorem fragmentsOf_append (h : a.ShowsEnd) (t : Text) :
    ∃ fragment : Fragment, fragment.rules = [] ∧
      fragment.diagnostics = [.unsupportedAtRule 1 a.name] ∧
      Stylesheet.fragmentsOf (a.written ++ t) =
        fragment :: Stylesheet.fragmentsOf (lineBreaks a.written ++ t) := by
  have hblank := isAllBlank_lineBreaks a.written
  obtain ⟨fragment, hrules, hdiagnostics, hfragments⟩ :=
    h.exists_fragments_append 1 (stripComments t)
  refine ⟨fragment, hrules, hdiagnostics, ?_⟩
  rw [Stylesheet.fragmentsOf, Stylesheet.fragmentsOf, h.isUncommented,
    isUncommented_of_isAllBlank hblank, hfragments, fragments_blank_append hblank,
    newlines_lineBreaks]

end ShowsEnd

end AtRule

/-! ### The theorem -/

/-- **An at-rule is passed over.** Where it stands at the top level, a stylesheet gives the same
rules as with its line breaks alone, at the same lines; the reports are the same too, up to that
of the at-rule, which has its name and stands at the line of its mark. -/
theorem ofText_append_atRule (s t : Text) (a : AtRule) (hs : EndsAtTop s) (ha : a.ShowsEnd) :
    let read := Stylesheet.ofText (s ++ (a.written ++ t))
    let blank := Stylesheet.ofText (s ++ (lineBreaks a.written ++ t))
    read.rules = blank.rules ∧
      ∃ before after, blank.diagnostics = before ++ after ∧
        read.diagnostics = before ++ .unsupportedAtRule (1 + newlines s) a.name :: after := by
  intro read blank
  obtain ⟨fragment, hrules, hdiagnostics, hfragments⟩ := ha.fragmentsOf_append t
  obtain ⟨hreadRules, hreadReports⟩ := hs.fragmentsOf_append (a.written ++ t)
  obtain ⟨hblankRules, hblankReports⟩ := hs.fragmentsOf_append (lineBreaks a.written ++ t)
  rw [hfragments, List.flatMap_cons, hrules, List.nil_append] at hreadRules
  rw [hfragments, List.flatMap_cons, hdiagnostics] at hreadReports
  refine ⟨?_, _, _, hblankReports, hreadReports⟩
  exact congrArg Rule.mergeLoose (hreadRules.trans hblankRules.symm)

/-- A block for small screens, with rules in it and a brace in quotes. -/
def screenRule : AtRule where
  name := "media".toList
  prelude := " (width < 9em)\n".toList
  body? := some " .a \x7b content: '\x7d'; \x7d\n p \x7b\x7d ".toList
  name_ne_nil := by decide
  nameChars := List.all_eq_true.mp (by decide)
  prelude_head := by simp [isAtRuleNameChar]

theorem ofText_append_atRule_screen :
    EndsAtTop "--x: 1; ".toList ∧ screenRule.ShowsEnd ∧
      (Stylesheet.ofText ("--x: 1; ".toList ++ (screenRule.written ++ "--y: 2".toList))).rules =
        (Stylesheet.ofText "--x: 1; \n\n--y: 2".toList).rules := by
  have hstart : EndsAtTop "--x: 1; ".toList := by decide
  have hscreen : screenRule.ShowsEnd :=
    ⟨not_comment_of_not_mem (by decide), by simp [screenRule, endsFragment], fun body hbody => by
      obtain rfl := Option.some.inj hbody
      exact ⟨by decide, by decide⟩⟩
  exact ⟨hstart, hscreen, (ofText_append_atRule _ _ screenRule hstart hscreen).1⟩

/-- An import whose address has a semicolon. -/
def importRule : AtRule where
  name := "import".toList
  prelude := " url(theme.css;v:2)".toList
  body? := none
  name_ne_nil := by decide
  nameChars := List.all_eq_true.mp (by decide)
  prelude_head := by simp [isAtRuleNameChar]

/-- **A semicolon in parentheses ends an at-rule.** The prelude is closed, and the semicolon stands
inside its parentheses only; what follows it is read as a declaration all the same. -/
theorem rules_importRule_ne_blank :
    (EndsAtTop [] ∧ ¬"/*".toList <:+: importRule.written ∧
        quoteAtEnd none importRule.prelude = none ∧
        Brackets.parens.IsBalanced (unquoted none importRule.prelude) ∧
        ∀ c ∈ Brackets.parens.outside 0 (unquoted none importRule.prelude),
          endsFragment c = false) ∧
      (Stylesheet.ofText importRule.written).rules =
        [⟨[], [⟨"v".toList, "2)".toList, 1⟩], 1⟩] ∧
      (Stylesheet.ofText (lineBreaks importRule.written)).rules = [] := by
  have hcomment : ¬"/*".toList <:+: importRule.written := not_comment_of_not_mem (by decide)
  refine ⟨⟨by decide, hcomment, by decide, by decide, ?_⟩, ?_, ?_⟩
  · have houtside :
        Brackets.parens.outside 0 (unquoted none importRule.prelude) = " url(".toList := by decide
    rw [houtside]
    simp [endsFragment]
  · decide +kernel
  · decide +kernel

end CssResources
