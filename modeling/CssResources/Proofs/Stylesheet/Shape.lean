import CssResources.Proofs.Stylesheet.Definitions
import CssResources.Proofs.Stylesheet.Places

/-!
# The shape of the rules that are read

The reader takes any text and rejects none, so what it gives has to be in order whatever it was
given. This file says what can be relied on (`CssResources.ofText_wellFormed`):

* selectors, properties and values **have the form that they should have**
  (`CssResources.Rule.IsWellFormed`), whichever scanner has cut them out;
* rules without selectors **never meet**, as merging has been through all of them
  (`CssResources.Rule.isChain_mergeLoose`);
* the lines of rules and declarations **never decrease** from one to the next, and are lines of the
  source (`CssResources.Ascends`).

The last one is shown of all lines in a row, those of a rule and of its declarations in front of
those of the next rule. A reader that only knew of each rule that its lines ascend could not merge
rules: a declaration outside every block joins the rule of an earlier one, over all that has been
skipped between them. In a row, the lines after merging are some of the lines before it
(`CssResources.Rule.lines_mergeLoose_sublist`), which ascend because each scanner goes on at the
line where the one before it stopped (`CssResources.ascends_fragments`).
-/

namespace CssResources

/-! ### Lines that ascend -/

/-- **Lines ascend** from a first line to a last one: none is smaller than the one before it, and
all lie between the two. -/
structure Ascends (first last : Nat) (lines : List Nat) : Prop where
  /-- The last line does not come before the first. -/
  first_le_last : first ≤ last
  /-- No line is smaller than one before it. -/
  sorted : lines.Pairwise (· ≤ ·)
  /-- All lines lie between the first and the last. -/
  within : ∀ line ∈ lines, first ≤ line ∧ line ≤ last

namespace Ascends

variable {first middle last : Nat} {ls ms : List Nat}

theorem nil (h : first ≤ last) : Ascends first last [] := ⟨h, List.Pairwise.nil, by simp⟩

theorem singleton {line : Nat} (hfirst : first ≤ line) (hlast : line ≤ last) :
    Ascends first last [line] :=
  ⟨Nat.le_trans hfirst hlast, List.pairwise_singleton _ _, by simp [hfirst, hlast]⟩

/-- **Lines that ascend go on** with lines that ascend from where they stop. -/
theorem append (hl : Ascends first middle ls) (hm : Ascends middle last ms) :
    Ascends first last (ls ++ ms) where
  first_le_last := Nat.le_trans hl.first_le_last hm.first_le_last
  sorted := List.pairwise_append.mpr ⟨hl.sorted, hm.sorted, fun l hl' m hm' =>
    Nat.le_trans (hl.within l hl').2 (hm.within m hm').1⟩
  within line hline := by
    rcases List.mem_append.mp hline with h | h
    · exact ⟨(hl.within line h).1, Nat.le_trans (hl.within line h).2 hm.first_le_last⟩
    · exact ⟨Nat.le_trans hl.first_le_last (hm.within line h).1, (hm.within line h).2⟩

theorem mono {first' last' : Nat} (h : Ascends first last ls) (hfirst : first' ≤ first)
    (hlast : last ≤ last') : Ascends first' last' ls where
  first_le_last := Nat.le_trans hfirst (Nat.le_trans h.first_le_last hlast)
  sorted := h.sorted
  within line hline :=
    ⟨Nat.le_trans hfirst (h.within line hline).1, Nat.le_trans (h.within line hline).2 hlast⟩

theorem of_sublist (h : Ascends first last ms) (hls : ls.Sublist ms) : Ascends first last ls where
  first_le_last := h.first_le_last
  sorted := h.sorted.sublist hls
  within line hline := h.within line (hls.subset hline)

end Ascends

/-! ### Lines of declarations -/

theorem newlines_le_of_sublist {s t : Text} (h : s.Sublist t) : newlines s ≤ newlines t :=
  h.count_le '\n'

/-- A text begins at one of its lines. -/
theorem lineOf_le (line : Nat) (t : Text) : lineOf line t ≤ line + newlines t :=
  Nat.add_le_add_left (newlines_le_of_sublist (List.takeWhile_sublist isBlank)) line

theorem ascends_segmentDeclaration? (line : Nat) (s : Text) :
    Ascends line (line + newlines s)
      ((segmentDeclaration? line s).toList.map Declaration.line) := by
  cases hd : segmentDeclaration? line s with
  | none => exact Ascends.nil (Nat.le_add_right _ _)
  | some d =>
    obtain ⟨-, -, -, -, -, -, -, -, hline⟩ := Declaration.exists_name_of_ofText? hd
    refine Ascends.singleton ?_ ?_
    · rw [hline]
      exact Nat.le_add_right _ _
    · rw [hline]
      exact lineOf_le line s

theorem ascends_segmentDeclarations (line : Nat) (ss : List Text) :
    Ascends line (line + (ss.map newlines).sum)
      ((segmentDeclarations line ss).map Declaration.line) := by
  induction ss generalizing line with
  | nil => exact Ascends.nil (Nat.le_add_right _ _)
  | cons s ss ih =>
    rw [segmentDeclarations, List.map_append, List.map_cons, List.sum_cons, ← Nat.add_assoc]
    exact (ascends_segmentDeclaration? line s).append (ih (line + newlines s))

/-- **The lines of the declarations of a block ascend** from its first line to its last one. -/
theorem ascends_declarationsOf (line : Nat) (body : Text) :
    Ascends line (line + newlines body) ((declarationsOf line body).map Declaration.line) := by
  have h := ascends_segmentDeclarations line (bodySegments 0 none body)
  rwa [sum_newlines_bodySegments] at h

/-! ### Lines of rules -/

/-- The line of a rule, and those of its declarations. -/
def Rule.lines (r : Rule) : List Nat := r.line :: r.declarations.map Declaration.line

namespace Fragment

variable {line line' first last : Nat}

theorem ascends_statement (t : Text) (hfirst : first ≤ line) (hlast : line ≤ last) :
    Ascends first last ((statement line t).rules.flatMap Rule.lines) := by
  rcases rules_statement_cases line t with hnone | ⟨d, hd, hrules⟩
  · rw [hnone]
    exact Ascends.nil (Nat.le_trans hfirst hlast)
  · obtain ⟨-, -, -, -, -, -, -, -, hline⟩ := Declaration.exists_name_of_ofText? hd
    have hlines : [d.line] = [line] := congrArg (fun l => [l]) hline
    rw [hrules, List.flatMap_singleton, Rule.lines, List.map_singleton, hlines]
    exact (Ascends.singleton hfirst (Nat.le_refl line)).append
      (Ascends.singleton (Nat.le_refl line) hlast)

theorem ascends_block (head body : Text) (hfirst : first ≤ line) (hlast : line ≤ line') :
    Ascends first (line' + newlines body)
      ((block line head line' body).rules.flatMap Rule.lines) := by
  rcases rules_block_cases line head line' body with hnone | ⟨-, hrules⟩
  · rw [hnone]
    exact Ascends.nil (Nat.le_trans hfirst (Nat.le_trans hlast (Nat.le_add_right _ _)))
  · have hbody : newlines (dropNested line' none body).1 ≤ newlines body :=
      newlines_le_of_sublist (dropNested_sublist line' none body)
    rw [hrules, List.flatMap_singleton]
    exact (Ascends.singleton hfirst hlast).append
      ((ascends_declarationsOf line' _).mono (Nat.le_refl line') (Nat.add_le_add_left hbody line'))

end Fragment

/-- The line breaks of a block and of what follows it are those of the text that it begins. -/
theorem newlines_splitBlock (depth : Nat) (quote : Option Char) (t : Text) :
    newlines (splitBlock depth quote t).1 + newlines (splitBlock depth quote t).2 = newlines t := by
  rcases splitBlock_cases depth quote t with ⟨h, hnil⟩ | h
  · rw [hnil, newlines_nil, Nat.add_zero, ← h]
  · conv => rhs; rw [h]
    rw [newlines_append, newlines_cons_of_ne (by decide)]

/-- **The lines of the rules of a text ascend** from its first line to its last one. -/
theorem ascends_fragments (line : Nat) (t : Text) :
    Ascends line (line + newlines t)
      (((fragments line t).flatMap Fragment.rules).flatMap Rule.lines) := by
  have hstart (line : Nat) (lead : Text) : line ≤ lineOf line lead := Nat.le_add_right _ _
  induction t using fragments_induction generalizing line with
  | last t ht =>
    rw [fragments_last ht, List.flatMap_singleton]
    exact Fragment.ascends_statement _ (hstart line t) (lineOf_le line t)
  | block lead rest hlead ih =>
    have hlines : line + newlines (lead ++ '{' :: rest) =
        line + newlines lead + newlines (splitBlock 0 none rest).1
          + newlines (splitBlock 0 none rest).2 := by
      rw [newlines_append, newlines_cons_of_ne (by decide), ← newlines_splitBlock 0 none rest]
      omega
    rw [fragments_open hlead, List.flatMap_cons, List.flatMap_append, hlines]
    exact (Fragment.ascends_block _ _ (hstart line lead) (lineOf_le line lead)).append (ih _)
  | statement lead rest hlead ih =>
    rw [fragments_semicolon hlead, List.flatMap_cons, List.flatMap_append, newlines_append,
      newlines_cons_of_ne (by decide), ← Nat.add_assoc]
    exact (Fragment.ascends_statement _ (hstart line lead) (lineOf_le line lead)).append (ih _)
  | stray lead rest hlead ih =>
    rw [fragments_close hlead, newlines_append, newlines_cons_of_ne (by decide), ← Nat.add_assoc]
    exact (ih _).mono (Nat.le_add_right _ _) (Nat.le_refl _)

/-! ### Rules without selectors -/

namespace Rule

theorem lines_mergeInto_sublist (r : Rule) (rs : List Rule) :
    ((mergeInto r rs).flatMap lines).Sublist (r.lines ++ rs.flatMap lines) := by
  cases rs with
  | nil => simp [mergeInto]
  | cons s rs =>
    rw [mergeInto]
    split
    · -- the line of the second rule is given up
      simp only [List.flatMap_cons, lines, List.map_append, List.cons_append, List.append_assoc]
      refine List.Sublist.cons_cons _ ?_
      exact (List.Sublist.refl _).append (List.sublist_cons_self _ _)
    · exact List.Sublist.refl _

/-- **Merging makes no lines**: those of the merged rules are some of those before. -/
theorem lines_mergeLoose_sublist (rs : List Rule) :
    ((mergeLoose rs).flatMap lines).Sublist (rs.flatMap lines) := by
  induction rs with
  | nil => exact List.Sublist.refl _
  | cons r rs ih =>
    rw [mergeLoose_cons, List.flatMap_cons]
    exact (lines_mergeInto_sublist r _).trans ((List.Sublist.refl _).append ih)

/-- Of two neighbours one has a selector. -/
def Parts (r s : Rule) : Prop := ¬(r.selectors = [] ∧ s.selectors = [])

/-- **After merging no two rules without selectors meet.** -/
theorem isChain_mergeLoose (rs : List Rule) : (mergeLoose rs).IsChain Parts := by
  induction rs with
  | nil => exact List.isChain_nil
  | cons r rs ih =>
    rw [mergeLoose_cons]
    generalize mergeLoose rs = ss at ih
    cases ss with
    | nil => exact List.isChain_singleton r
    | cons s ss =>
      obtain ⟨hs, hss⟩ := List.isChain_cons.mp ih
      by_cases hloose : r.selectors = [] ∧ s.selectors = []
      · rw [mergeInto_cons_of_loose ss hloose.1 hloose.2]
        exact List.isChain_cons.mpr ⟨fun u hu hboth => hs u hu ⟨hloose.2, hboth.2⟩, hss⟩
      · rw [mergeInto_cons_of_not_loose ss hloose]
        refine List.isChain_cons.mpr ⟨fun u hu => ?_, ih⟩
        obtain rfl := Option.mem_some_iff.mp hu
        exact hloose

end Rule

/-! ### The form of selectors, properties and values -/

/-- **A declaration as it is read.** -/
structure Declaration.IsWellFormed (d : Declaration) : Prop where
  /-- Its property can be written. -/
  property : IsPropertyText d.property
  /-- Its value has a character. -/
  value_ne_nil : d.value ≠ []
  /-- Its value has no blanks at its ends. -/
  value_trimmed : trim d.value = d.value

/-- **A rule as it is read.** -/
structure Rule.IsWellFormed (r : Rule) : Prop where
  /-- Its selectors have a character. -/
  selectors_ne_nil : ∀ s ∈ r.selectors, s ≠ []
  /-- Its selectors have no blanks at their ends. -/
  selectors_trimmed : ∀ s ∈ r.selectors, trim s = s
  /-- Its selectors have no braces and no semicolons. -/
  selectors_marks : ∀ s ∈ r.selectors, '{' ∉ s ∧ '}' ∉ s ∧ ';' ∉ s
  /-- It has a declaration if it has no selectors. -/
  declarations_ne_nil : r.selectors = [] → r.declarations ≠ []
  /-- Its declarations are as they are read. -/
  declarations : ∀ d ∈ r.declarations, d.IsWellFormed

namespace Declaration

/-- **A name as it is kept can be written**: it is in lower case if it has to be. -/
theorem isPropertyText_canonicalName {name : Text} (hne : name ≠ [])
    (hname : ∀ c ∈ name, isNameChar c = true) : IsPropertyText (canonicalName name) where
  ne_nil := by
    rw [canonicalName]
    split
    · exact hne
    · simpa [lowerAscii] using hne
  nameChars := List.all_eq_true.mpr fun _ => isNameChar_of_mem_canonicalName hname
  lower := by
    have hascii : ∀ n < 128, (Char.ofNat n).toLower.toLower = (Char.ofNat n).toLower := by
      decide +kernel
    rw [canonicalName]
    split
    · rename_i hdashes
      exact Or.inl (isSome_afterStart?_iff.mp hdashes)
    · refine Or.inr ?_
      rw [lowerAscii, lowerAscii, List.map_map]
      refine List.map_congr_left fun c hc => ?_
      have hc : c.toNat < 128 :=
        Nat.lt_of_le_of_lt (toNat_of_isNameChar (hname c hc)).2 (by decide)
      have hlower : c.toLower.toLower = c.toLower := forall_ascii hc hascii
      exact hlower

/-- **What is read as a declaration is one.** -/
theorem isWellFormed_of_ofText? {line : Nat} {t : Text} {d : Declaration}
    (h : ofText? line t = some d) : d.IsWellFormed := by
  obtain ⟨-, name, -, -, -, hne, hname, hproperty, -⟩ := exists_name_of_ofText? h
  rw [ofText?] at h
  obtain ⟨⟨before, after⟩, -, h⟩ := Option.bind_eq_some_iff.mp h
  dsimp only at h
  split at h
  · simp at h
  · rename_i hvalid
    obtain rfl := Option.some.inj h
    refine ⟨?_, fun hvalue => ?_, trim_trim _⟩
    · rw [hproperty]
      exact isPropertyText_canonicalName hne hname
    · have hvalue : trim (trimEndOf ';' (trim after)) = [] := hvalue
      simp [hvalue] at hvalid

end Declaration

theorem sublist_of_mem_selectorParts {depth : Nat} {t s : Text} (h : s ∈ selectorParts depth t) :
    s.Sublist t := by
  induction t generalizing depth s with
  | nil => simp_all [selectorParts]
  | cons c t ih =>
    rw [selectorParts] at h
    exact sublist_of_mem_part (fun _ => ih) (fun _ => ih) h

/-- **A selector is a part of its group**, trimmed and not empty. -/
theorem of_mem_selectorsOf {head s : Text} (h : s ∈ selectorsOf head) :
    s ≠ [] ∧ trim s = s ∧ s.Sublist head := by
  obtain ⟨hmem, hne⟩ := List.mem_filter.mp h
  obtain ⟨part, hpart, rfl⟩ := List.mem_map.mp hmem
  exact ⟨by simpa using hne, trim_trim part,
    (trim_sublist part).trans (sublist_of_mem_selectorParts hpart)⟩

namespace Fragment

theorem isWellFormed_of_mem_statement {line : Nat} {t : Text} {r : Rule}
    (hr : r ∈ (statement line t).rules) : r.IsWellFormed := by
  rcases rules_statement_cases line t with hnone | ⟨d, hd, hrules⟩
  · simp [hnone] at hr
  · rw [hrules] at hr
    obtain rfl := List.mem_singleton.mp hr
    have hdeclaration := Declaration.isWellFormed_of_ofText? hd
    exact ⟨by simp, by simp, by simp, by simp, by simpa using hdeclaration⟩

theorem isWellFormed_of_mem_block {line line' : Nat} {lead body : Text}
    (hlead : ∀ c ∈ lead, endsFragment c = false) {r : Rule}
    (hr : r ∈ (block line (trim lead) line' body).rules) : r.IsWellFormed := by
  rcases rules_block_cases line (trim lead) line' body with hnone | ⟨hne, hrules⟩
  · simp [hnone] at hr
  · rw [hrules] at hr
    obtain rfl := List.mem_singleton.mp hr
    have hmark {c : Char} (hc : endsFragment c = true) {s : Text}
        (hs : s ∈ selectorsOf (trim lead)) : c ∉ s := fun hmem => by
      have hsub := (of_mem_selectorsOf hs).2.2.trans (trim_sublist lead)
      rw [hlead c (hsub.subset hmem)] at hc
      exact absurd hc (by simp)
    exact
      { selectors_ne_nil := fun s hs => (of_mem_selectorsOf hs).1
        selectors_trimmed := fun s hs => (of_mem_selectorsOf hs).2.1
        selectors_marks := fun s hs => ⟨hmark rfl hs, hmark rfl hs, hmark rfl hs⟩
        declarations_ne_nil := fun hnil => absurd hnil hne
        declarations := fun d hd => by
          obtain ⟨s, -, line, hread⟩ := exists_of_mem_segmentDeclarations hd
          exact Declaration.isWellFormed_of_ofText? hread }

end Fragment

/-- **The rules of fragments have the form that they should have.** -/
theorem isWellFormed_of_mem_fragments {line : Nat} {t : Text} {r : Rule}
    (hr : r ∈ (fragments line t).flatMap Fragment.rules) : r.IsWellFormed := by
  induction t using fragments_induction generalizing line with
  | last t ht =>
    rw [fragments_last ht, List.flatMap_singleton] at hr
    exact Fragment.isWellFormed_of_mem_statement hr
  | block lead rest hlead ih =>
    rw [fragments_open hlead, List.flatMap_cons, List.mem_append] at hr
    exact hr.elim (Fragment.isWellFormed_of_mem_block hlead) ih
  | statement lead rest hlead ih =>
    rw [fragments_semicolon hlead, List.flatMap_cons, List.mem_append] at hr
    exact hr.elim Fragment.isWellFormed_of_mem_statement ih
  | stray lead rest hlead ih =>
    rw [fragments_close hlead] at hr
    exact ih hr

theorem Rule.isWellFormed_of_mem_mergeLoose {rs : List Rule} (h : ∀ r ∈ rs, r.IsWellFormed) :
    ∀ r ∈ mergeLoose rs, r.IsWellFormed := by
  refine forall_mem_mergeLoose (fun r s hr _ hrs hss => ?_) h
  refine ⟨hrs.selectors_ne_nil, hrs.selectors_trimmed, hrs.selectors_marks, fun hr => ?_,
    fun d hd => ?_⟩
  · exact List.append_ne_nil_of_left_ne_nil (hrs.declarations_ne_nil hr) _
  · exact (List.mem_append.mp hd).elim (hrs.declarations d) (hss.declarations d)

/-! ### The theorem -/

/-- **What is read is well-formed**, whatever the source. Each rule has the form that it should
have; no two rules without selectors meet; and the lines of the rules and of their declarations,
from the first rule to the last, never decrease from the first line of the source to its last
one. -/
theorem ofText_wellFormed (source : Text) :
    let rules := (Stylesheet.ofText source).rules
    (∀ r ∈ rules, r.IsWellFormed) ∧ rules.IsChain Rule.Parts ∧
      Ascends 1 (1 + newlines source) (rules.flatMap Rule.lines) := by
  refine ⟨Rule.isWellFormed_of_mem_mergeLoose fun r => isWellFormed_of_mem_fragments,
    Rule.isChain_mergeLoose _, ?_⟩
  rw [← newlines_stripComments source]
  exact (ascends_fragments 1 _).of_sublist (Rule.lines_mergeLoose_sublist _)

/-- A declaration outside every block joins one in front of a block without selectors, and keeps
its line. -/
example : (Stylesheet.ofText "a: 1;\n\x7b b: 2 \x7d\nC: 3".toList).rules =
    [⟨[], [⟨"a".toList, "1".toList, 1⟩, ⟨"c".toList, "3".toList, 3⟩], 1⟩] := by
  cbv

end CssResources
