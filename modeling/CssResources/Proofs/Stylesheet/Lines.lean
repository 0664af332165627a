import CssResources.Proofs.Stylesheet.Scanning

/-!
# The lines of a stylesheet

Where a text stands in a file can be seen from the lines of what is read from it, and from
nothing else. Text that begins some lines further down gives the same fragments, rules and
reports, **each so many lines further down** (`CssResources.fragments_add`).

Lines are changed by a function on numbers, which leaves all else as it is.

| what has lines | with its lines changed |
|---|---|
| declarations and rules | `CssResources.Declaration.mapLine`, `CssResources.Rule.mapLine` |
| fragments of the top level | `CssResources.Fragment.mapLine` |
| reports | `CssResources.Diagnostic.mapLine` |

Rules without selectors are merged whatever lines they stand at
(`CssResources.Rule.mergeLoose_map_mapLine`).
-/

namespace CssResources

/-! ### Changing lines -/

/-- The declaration at another line. -/
def Declaration.mapLine (f : Nat → Nat) (d : Declaration) : Declaration :=
  { d with line := f d.line }

/-- The rule at other lines, its declarations too. -/
def Rule.mapLine (f : Nat → Nat) (r : Rule) : Rule :=
  { r with declarations := r.declarations.map (Declaration.mapLine f), line := f r.line }

/-- The report for another line, if it is for a line. -/
def Diagnostic.mapLine (f : Nat → Nat) : Diagnostic → Diagnostic
  | unsupportedSelector line selector reason => unsupportedSelector (f line) selector reason
  | unsupportedAtRule line name => unsupportedAtRule (f line) name
  | unsupportedValue line property value => unsupportedValue (f line) property value
  | malformedShorthand line property value => malformedShorthand (f line) property value
  | unresolvedVariable line property value => unresolvedVariable (f line) property value
  | variableCycle name => variableCycle name
  | expansionLimit name => expansionLimit name
  | notAColor name value => notAColor name value

/-- The fragment at other lines. -/
def Fragment.mapLine (f : Nat → Nat) : Fragment → Fragment
  | statement line text => statement (f line) text
  | block line head bodyLine body => block (f line) head (f bodyLine) body

/-- No line, in place of any: what is the same with it is the same up to lines. -/
def noLine (_ : Nat) : Nat := 0

variable (f : Nat → Nat) (k : Nat)

/-- Lines are changed one after the other. -/
theorem Rule.mapLine_mapLine (g : Nat → Nat) (r : Rule) :
    (r.mapLine f).mapLine g = r.mapLine (g ∘ f) := by
  simp only [Rule.mapLine, List.map_map]
  rfl

/-- Where rules are moved does not matter up to lines. -/
theorem Rule.map_noLine_map_mapLine (rs : List Rule) :
    (rs.map (mapLine f)).map (mapLine noLine) = rs.map (mapLine noLine) := by
  rw [List.map_map]
  exact List.map_congr_left fun r _ => mapLine_mapLine f noLine r

theorem Diagnostic.mapLine_mapLine (g : Nat → Nat) (d : Diagnostic) :
    (d.mapLine f).mapLine g = d.mapLine (g ∘ f) := by
  cases d <;> rfl

/-! ### Rules -/

namespace Rule

theorem mergeInto_map_mapLine (r : Rule) (rs : List Rule) :
    mergeInto (r.mapLine f) (rs.map (mapLine f)) = (mergeInto r rs).map (mapLine f) := by
  cases rs with
  | nil => rfl
  | cons s rs =>
    rw [List.map_cons, mergeInto, mergeInto]
    by_cases h : r.selectors.isEmpty && s.selectors.isEmpty
    · have h' : (r.mapLine f).selectors.isEmpty && (s.mapLine f).selectors.isEmpty := h
      rw [if_pos h, if_pos h', List.map_cons]
      simp [mapLine]
    · have h' : ¬((r.mapLine f).selectors.isEmpty && (s.mapLine f).selectors.isEmpty) := h
      rw [if_neg h, if_neg h', List.map_cons, List.map_cons]

/-- **Which rules are merged does not depend on their lines.** -/
theorem mergeLoose_map_mapLine (rs : List Rule) :
    mergeLoose (rs.map (mapLine f)) = (mergeLoose rs).map (mapLine f) := by
  induction rs with
  | nil => rfl
  | cons r rs ih =>
    rw [List.map_cons, mergeLoose_cons, ih, mergeInto_map_mapLine, mergeLoose_cons]

end Rule

/-! ### Declarations -/

theorem Declaration.ofText?_mapLine (line : Nat) (t : Text) :
    ofText? (f line) t = (ofText? line t).map (mapLine f) := by
  rw [ofText?, ofText?]
  cases splitOnce? ':' t with
  | none => rfl
  | some p =>
    simp only [Option.bind_eq_bind, Option.bind_some]
    split <;> rfl

theorem lineOf_add (line : Nat) (t : Text) : lineOf (line + k) t = lineOf line t + k := by
  rw [lineOf, lineOf]
  omega

theorem segmentDeclaration?_add (line : Nat) (s : Text) :
    segmentDeclaration? (line + k) s =
      (segmentDeclaration? line s).map (Declaration.mapLine (· + k)) := by
  rw [segmentDeclaration?, segmentDeclaration?, ← Declaration.ofText?_mapLine, ← lineOf, ← lineOf,
    lineOf_add]

theorem segmentDeclarations_add (line : Nat) (ss : List Text) :
    segmentDeclarations (line + k) ss =
      (segmentDeclarations line ss).map (Declaration.mapLine (· + k)) := by
  induction ss generalizing line with
  | nil => rfl
  | cons s ss ih =>
    rw [segmentDeclarations, segmentDeclarations, segmentDeclaration?_add, Nat.add_right_comm, ih,
      List.map_append]
    cases segmentDeclaration? line s <;> rfl

/-- Declarations that follow others. -/
theorem segmentDeclarations_append (line : Nat) (ss ts : List Text) :
    segmentDeclarations line (ss ++ ts) =
      segmentDeclarations line ss ++ segmentDeclarations (line + (ss.map newlines).sum) ts := by
  induction ss generalizing line with
  | nil => rfl
  | cons s ss ih =>
    rw [List.cons_append, segmentDeclarations, segmentDeclarations, ih, List.map_cons,
      List.sum_cons, Nat.add_assoc, List.append_assoc]

/-- **Up to lines, segments declare what each of them does for itself.** -/
theorem map_noLine_segmentDeclarations (line : Nat) (ss : List Text) :
    (segmentDeclarations line ss).map (Declaration.mapLine noLine) =
      ss.filterMap (Declaration.ofText? 0) := by
  induction ss generalizing line with
  | nil => rfl
  | cons s ss ih =>
    have hs := Declaration.ofText?_mapLine noLine (line + newlines (s.takeWhile isBlank)) s
    rw [segmentDeclarations, List.map_append, ih, List.filterMap_cons, segmentDeclaration?]
    change Declaration.ofText? 0 s = _ at hs
    rw [hs]
    cases Declaration.ofText? (line + newlines (s.takeWhile isBlank)) s <;> rfl

/-! ### Nested rules -/

theorem nestedRule?_mapLine (line : Nat) (lead : Text) :
    nestedRule? (f line) lead = (nestedRule? line lead).map (Diagnostic.mapLine f) := by
  rw [nestedRule?, nestedRule?]
  split <;> rfl

/-- **Nested rules are dropped in the same way wherever a block begins**, and reported so many
lines further down. -/
theorem dropNested_add (line : Nat) (quote : Option Char) (t : Text) :
    dropNested (line + k) quote t =
      ((dropNested line quote t).1,
        (dropNested line quote t).2.map (Diagnostic.mapLine (· + k))) := by
  fun_induction dropNested line quote t with
  | case1 line quote t lead quote' hcut => rw [dropNested_last _ hcut]; rfl
  | case2 line quote t lead quote' rest p hcut ih =>
    rw [dropNested_semicolon _ hcut, Nat.add_right_comm, ih]
  | case3 line quote t lead quote' c rest hcut hc nested p ih =>
    obtain ⟨-, -, hmark⟩ := eq_of_cutSegment hcut
    obtain ⟨-, rfl⟩ := hmark.resolve_left hc
    rw [dropNested_block _ hcut, Nat.add_right_comm line k, Nat.add_right_comm _ k, ih,
      nestedRule?_mapLine (· + k), List.map_append]
    cases nestedRule? (line + newlines lead) lead <;> rfl

/-! ### Fragments -/

/-- **A text gives the same fragments wherever it begins**, each so many lines further down. -/
theorem fragments_add (line : Nat) (t : Text) :
    fragments (line + k) t = (fragments line t).map (Fragment.mapLine (· + k)) := by
  induction t using fragments_induction generalizing line with
  | last t ht =>
    rw [fragments_last ht, fragments_last ht, lineOf_add]
    rfl
  | block lead rest hlead ih =>
    rw [fragments_open hlead, fragments_open hlead, lineOf_add, Nat.add_right_comm line k,
      Nat.add_right_comm _ k, ih]
    rfl
  | statement lead rest hlead ih =>
    rw [fragments_semicolon hlead, fragments_semicolon hlead, lineOf_add,
      Nat.add_right_comm line k, ih]
    rfl
  | stray lead rest hlead ih =>
    rw [fragments_close hlead, fragments_close hlead, Nat.add_right_comm line k, ih]

namespace Fragment

/-- The rule of a fragment that stands further down is further down itself. -/
theorem rules_mapLine_add (fragment : Fragment) :
    (fragment.mapLine (· + k)).rules = fragment.rules.map (Rule.mapLine (· + k)) := by
  cases fragment with
  | statement line text =>
    rw [mapLine, rules, rules, Declaration.ofText?_mapLine (· + k)]
    by_cases h : isAtRule text
    · simp [h]
    · simp only [h]
      cases Declaration.ofText? line text <;> rfl
  | block line head bodyLine body =>
    rw [mapLine, rules, rules, dropNested_add, declarationsOf, declarationsOf,
      segmentDeclarations_add]
    by_cases h : isAtRule head
    · simp [h]
    · simp only [h]
      cases selectorsOf head <;> rfl

/-- What is reported of a fragment that stands further down is reported further down. -/
theorem diagnostics_mapLine_add (fragment : Fragment) :
    (fragment.mapLine (· + k)).diagnostics =
      fragment.diagnostics.map (Diagnostic.mapLine (· + k)) := by
  cases fragment with
  | statement line text =>
    rw [mapLine, diagnostics, diagnostics]
    split <;> rfl
  | block line head bodyLine body =>
    rw [mapLine, diagnostics, diagnostics, dropNested_add]
    split <;> rfl

end Fragment

/-- The rules of a text that begins further down. -/
theorem flatMap_rules_fragments_add (line : Nat) (t : Text) :
    (fragments (line + k) t).flatMap Fragment.rules =
      ((fragments line t).flatMap Fragment.rules).map (Rule.mapLine (· + k)) := by
  rw [fragments_add, List.flatMap_map, List.map_flatMap]
  simp only [Fragment.rules_mapLine_add]

/-- The reports of a text that begins further down. -/
theorem flatMap_diagnostics_fragments_add (line : Nat) (t : Text) :
    (fragments (line + k) t).flatMap Fragment.diagnostics =
      ((fragments line t).flatMap Fragment.diagnostics).map (Diagnostic.mapLine (· + k)) := by
  rw [fragments_add, List.flatMap_map, List.map_flatMap]
  simp only [Fragment.diagnostics_mapLine_add]

end CssResources
