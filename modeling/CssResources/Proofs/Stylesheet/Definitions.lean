import CssResources.Proofs.Stylesheet.Concatenation
import CssResources.Proofs.Stylesheet.LooseDeclarations

/-!
# Definitions that are read alone

A definition of a custom property may be written out as a line of its own, outside every block
(`CssResources.definitionLine`). Not every value survives this: it may hold a semicolon, a brace
or a comment. Whether it does can be **tried out on the line alone**
(`CssResources.ReadsAlone`), and then it is read in the same way in front of any stylesheet
(`CssResources.ReadsAlone.isReadable`, `CssResources.IsReadable.fragmentsOf_append`).

The reason is that a value read from a text is shorter than the text
(`CssResources.Declaration.IsReadFrom.length_value`). So there is no room for the value behind the
first semicolon or brace (`CssResources.ReadsAlone.exists_mem_firstStatement`): it was read from the
text in front of it, in one piece, and without a comment
(`CssResources.not_comment_stripComments`).
-/

namespace CssResources

/-! ### Values are left of what they are read from -/

/-- **A value stands in one piece** in the text of its declaration. -/
theorem value_infix_of_ofText? {line : Nat} {t : Text} {d : Declaration}
    (h : Declaration.ofText? line t = some d) :
    d.value <:+: t ∧ d.value.length + 2 ≤ t.length := by
  rw [Declaration.ofText?] at h
  obtain ⟨⟨before, after⟩, hsplit, h⟩ := Option.bind_eq_some_iff.mp h
  dsimp only at h
  split at h
  · simp at h
  · rename_i hvalid
    obtain rfl := Option.some.inj h
    obtain rfl := eq_of_splitOnce? hsplit
    have hvalue : trim (trimEndOf ';' (trim after)) <:+: after :=
      ((trim_isInfix _).trans (trimEndOf_isPrefix ';' _).isInfix).trans (trim_isInfix after)
    have hafter : after <:+: before ++ ':' :: after :=
      ((List.suffix_cons ':' after).trans (List.suffix_append before _)).isInfix
    have hbefore : before ≠ [] := by
      rintro rfl
      simp at hvalid
    have hpos := List.length_pos_iff.mpr hbefore
    have hle := hvalue.length_le
    refine ⟨hvalue.trans hafter, ?_⟩
    simp only [List.length_append, List.length_cons]
    omega

/-- Nested rules take their texts with them, up to the line breaks. -/
theorem dropNested_sublist (line : Nat) (quote : Option Char) (t : Text) :
    (dropNested line quote t).1.Sublist t := by
  have hbreaks (s : Text) : (lineBreaks s).Sublist s := List.filter_sublist
  fun_induction dropNested line quote t with
  | case1 line quote t lead quote' hcut =>
    have happend := cutSegment_append quote t
    rw [hcut] at happend
    simp [← happend]
  | case2 line quote t lead quote' rest p hcut ih =>
    obtain ⟨rfl, -⟩ := eq_of_cutSegment hcut
    exact (List.Sublist.refl lead).append (ih.cons_cons ';')
  | case3 line quote t lead quote' c rest hcut hc nested p ih =>
    obtain ⟨rfl, -⟩ := eq_of_cutSegment hcut
    have hnested : (lineBreaks nested.1 ++ p.1).Sublist rest :=
      ((hbreaks nested.1).append ih).trans (splitBlock_sublist 0 none rest)
    rw [List.append_assoc]
    exact (hbreaks lead).append (hnested.cons c)

theorem exists_of_mem_segmentDeclarations {line : Nat} {ss : List Text} {d : Declaration}
    (h : d ∈ segmentDeclarations line ss) :
    ∃ s ∈ ss, ∃ line', Declaration.ofText? line' s = some d := by
  induction ss generalizing line with
  | nil => simp at h
  | cons s ss ih =>
    rcases List.mem_append.mp h with h | h
    · exact ⟨s, List.mem_cons_self .., _, Option.mem_toList.mp h⟩
    · obtain ⟨s', hs', hd⟩ := ih h
      exact ⟨s', List.mem_cons_of_mem _ hs', hd⟩

/-- **A declaration is read from a text** that is left of another one. -/
def Declaration.IsReadFrom (t : Text) (d : Declaration) : Prop :=
  ∃ s line, s.Sublist t ∧ Declaration.ofText? line s = some d

namespace Declaration.IsReadFrom

variable {d : Declaration} {s t : Text}

theorem mono (h : d.IsReadFrom s) (hs : s.Sublist t) : d.IsReadFrom t := by
  obtain ⟨u, line, hu, hd⟩ := h
  exact ⟨u, line, hu.trans hs, hd⟩

/-- The value is left of the text too. -/
theorem value_sublist (h : d.IsReadFrom t) : d.value.Sublist t := by
  obtain ⟨u, line, hu, hd⟩ := h
  exact (value_infix_of_ofText? hd).1.sublist.trans hu

/-- The value is shorter than the text. -/
theorem length_value (h : d.IsReadFrom t) : d.value.length + 2 ≤ t.length := by
  obtain ⟨u, line, hu, hd⟩ := h
  exact Nat.le_trans (value_infix_of_ofText? hd).2 hu.length_le

end Declaration.IsReadFrom

/-- The declarations of a fragment. -/
def Fragment.declarations (fragment : Fragment) : List Declaration :=
  fragment.rules.flatMap Rule.declarations

/-- The declaration of a statement is read from its text. -/
theorem ofText?_of_mem_statement {line : Nat} {t : Text} {d : Declaration}
    (h : d ∈ (Fragment.statement line t).declarations) :
    Declaration.ofText? line t = some d := by
  rw [Fragment.declarations] at h
  rcases Fragment.rules_statement_cases line t with hnone | ⟨d', hd, hrules⟩
  · simp [hnone] at h
  · have hdeclaration : d = d' := by simpa [hrules] using h
    rw [hd, hdeclaration]

/-- A declaration of a block is read from a segment of what is left of it without nested rules. -/
theorem exists_of_mem_block {line bodyLine : Nat} {head body : Text} {d : Declaration}
    (h : d ∈ (Fragment.block line head bodyLine body).declarations) :
    ∃ s ∈ bodySegments 0 none (dropNested bodyLine none body).1, ∃ line',
      Declaration.ofText? line' s = some d := by
  rw [Fragment.declarations] at h
  rcases Fragment.rules_block_cases line head bodyLine body with hnone | ⟨-, hrules⟩
  · simp [hnone] at h
  · rw [hrules, List.flatMap_singleton] at h
    exact exists_of_mem_segmentDeclarations h

theorem isReadFrom_of_mem_block {line bodyLine : Nat} {head body : Text} {d : Declaration}
    (h : d ∈ (Fragment.block line head bodyLine body).declarations) : d.IsReadFrom body := by
  obtain ⟨s, hs, line', hd⟩ := exists_of_mem_block h
  exact ⟨s, line', (isInfix_of_mem_bodySegments hs).sublist.trans (dropNested_sublist _ _ _), hd⟩

/-- **What is read from a text is read from what is left of it.** -/
theorem isReadFrom_of_mem_fragments {line : Nat} {t : Text} {d : Declaration}
    (h : d ∈ (fragments line t).flatMap Fragment.declarations) : d.IsReadFrom t := by
  have hstatement {line : Nat} {lead : Text}
      (h : d ∈ (Fragment.statement line (trim lead)).declarations) : d.IsReadFrom lead :=
    ⟨trim lead, line, trim_sublist lead, ofText?_of_mem_statement h⟩
  have hrest {lead rest : Text} {c : Char} (h : d.IsReadFrom rest) :
      d.IsReadFrom (lead ++ c :: rest) :=
    h.mono ((List.sublist_cons_self c rest).trans (List.sublist_append_right lead _))
  induction t using fragments_induction generalizing line with
  | last t ht =>
    rw [fragments_last ht, List.flatMap_singleton] at h
    exact hstatement h
  | block lead rest hlead ih =>
    rw [fragments_open hlead, List.flatMap_cons, List.mem_append] at h
    have hsplit := splitBlock_sublist 0 none rest
    rcases h with h | h
    · exact hrest ((isReadFrom_of_mem_block h).mono ((List.sublist_append_left _ _).trans hsplit))
    · exact hrest ((ih h).mono ((List.sublist_append_right _ _).trans hsplit))
  | statement lead rest hlead ih =>
    rw [fragments_semicolon hlead, List.flatMap_cons, List.mem_append] at h
    rcases h with h | h
    · exact (hstatement h).mono (List.sublist_append_left lead _)
    · exact hrest (ih h)
  | stray lead rest hlead ih =>
    rw [fragments_close hlead] at h
    exact hrest (ih h)

/-- **A value that leaves no room behind the first fragment is read from it**, and it is a
statement. -/
theorem mem_statement_of_length_le {line : Nat} {t : Text} {d : Declaration}
    (h : d ∈ (fragments line t).flatMap Fragment.declarations)
    (hshort : t.length ≤ (t.takeWhile (!endsFragment ·)).length + d.value.length + 2) :
    d ∈ (Fragment.statement (lineOf line (t.takeWhile (!endsFragment ·)))
      (trim (t.takeWhile (!endsFragment ·)))).declarations := by
  have hroom {line : Nat} {lead rest : Text} {c : Char}
      (hlength : (lead ++ c :: rest).length ≤ lead.length + d.value.length + 2) :
      d ∉ (fragments line rest).flatMap Fragment.declarations := fun hrest => by
    have := (isReadFrom_of_mem_fragments hrest).length_value
    rw [List.length_append, List.length_cons] at hlength
    omega
  induction t using fragments_induction with
  | last t ht =>
    rw [fragments_last ht, List.flatMap_singleton] at h
    rwa [List.takeWhile_eq_self_iff.mpr fun c hc => by simp [ht c hc]]
  | block lead rest hlead =>
    rw [takeWhile_endsFragment_append hlead rest (by decide)] at hshort
    rw [fragments_open hlead, List.flatMap_cons, List.mem_append] at h
    have hsplit := (splitBlock_sublist 0 none rest).length_le
    rw [List.length_append, List.length_cons] at hshort
    rw [List.length_append] at hsplit
    rcases h with h | h
    · have := (isReadFrom_of_mem_block h).length_value
      omega
    · have := (isReadFrom_of_mem_fragments h).length_value
      omega
  | statement lead rest hlead =>
    rw [takeWhile_endsFragment_append hlead rest (by decide)] at hshort ⊢
    rw [fragments_semicolon hlead, List.flatMap_cons, List.mem_append] at h
    exact h.resolve_right (hroom hshort)
  | stray lead rest hlead =>
    rw [takeWhile_endsFragment_append hlead rest (by decide)] at hshort
    rw [fragments_close hlead] at h
    exact absurd h (hroom hshort)

/-! ### Comments leave nothing behind -/

/-- Comments make no text longer. -/
theorem length_stripCommentsFrom_le (inside : Bool) (t : Text) :
    (stripCommentsFrom inside t).length ≤ t.length + inside.toNat := by
  fun_induction stripCommentsFrom inside t with
  | case1 t ih => simpa using Nat.le_succ_of_le ih
  | case2 t ih => simpa using Nat.le_succ_of_le (Nat.le_succ_of_le ih)
  | case3 c t h ih => simpa using ih
  | case4 t h ih => simpa using ih
  | case5 c t h hc ih => simpa using Nat.le_succ_of_le ih
  | case6 => simp
  | case7 => simp

/-- What is left of a text from inside a comment does not begin with a star. -/
theorem head?_stripCommentsFrom_true (t : Text) :
    (stripCommentsFrom true t).head? ≠ some '*' := by
  generalize hinside : true = inside
  fun_induction stripCommentsFrom inside t with
  | case1 t ih => simp at hinside
  | case2 t ih => simp
  | case3 c t h ih => simp at hinside
  | case4 t h ih => simp
  | case5 c t h hc ih => exact ih hinside
  | case6 => simp
  | case7 => simp

/-- What is left of a text begins with a star only if the text does. -/
theorem head?_of_head?_stripComments {t : Text} (h : (stripComments t).head? = some '*') :
    t.head? = some '*' := by
  cases t with
  | nil => simp at h
  | cons c t =>
    by_cases hc : c = '/' ∧ t.head? = some '*'
    · obtain ⟨rfl, hhead⟩ := hc
      obtain ⟨t', rfl⟩ := List.head?_eq_some_iff.mp hhead
      exact absurd h (head?_stripCommentsFrom_true t')
    · rwa [stripComments_cons hc] at h

/-- **No comment begins in what is left without comments.** -/
theorem not_comment_stripComments (t : Text) : ¬"/*".toList <:+: stripComments t := by
  rw [stripComments]
  generalize false = inside
  fun_induction stripCommentsFrom inside t with
  | case1 t ih => exact ih
  | case2 t ih => exact not_comment_cons_iff.mpr ⟨by simp, ih⟩
  | case3 c t h ih =>
    refine not_comment_cons_iff.mpr ⟨?_, ih⟩
    rintro ⟨hc, hhead⟩
    -- a star comes from the text itself, where it would have begun a comment
    obtain ⟨t', rfl⟩ := List.head?_eq_some_iff.mp (head?_of_head?_stripComments hhead)
    exact h t' hc rfl
  | case4 t h ih => exact not_comment_cons_iff.mpr ⟨by simp, ih⟩
  | case5 c t h hc ih => exact ih
  | case6 => simp
  | case7 => exact not_comment_cons_iff.mpr ⟨by simp, by simp⟩

/-! ### Definitions -/

/-- The definition of a custom property at a line. -/
def customDeclaration (name value : Text) (line : Nat) : Declaration where
  property := "--".toList ++ name
  value := value
  line := line

/-- **A name that a custom property can be given from outside**: it has name characters only,
and its dashes are left out. -/
structure IsCustomName (name : Text) : Prop where
  /-- It has letters, digits, dashes and underscores only. -/
  nameChars : name.all Declaration.isNameChar = true
  /-- It does not begin with two dashes. -/
  bare : ¬"--".toList <+: name

/-- What a definition has in front of its value. -/
def definitionLead (name : Text) : Text := "--".toList ++ name ++ ": ".toList

/-- The property of a definition and its value, without the semicolon. -/
def definitionPair (name value : Text) : Text := (customDeclaration name value 0).pair

/-- A definition written out, with a semicolon. -/
def definitionText (name value : Text) : Text := definitionPair name value ++ [';']

/-- **A definition as a line of its own.** -/
def definitionLine (name value : Text) : Text := definitionText name value ++ ['\n']

/-- **A value is read alone** from its definition: this gives one declaration, with the value. -/
def ReadsAlone (name value : Text) : Prop :=
  ∃ d, (Stylesheet.ofText (definitionText name value)).rules.flatMap Rule.declarations = [d] ∧
    d.value = value

section Definition

variable {name value : Text}

theorem IsCustomName.isPropertyText (h : IsCustomName name) :
    IsPropertyText ("--".toList ++ name) where
  ne_nil := by simp
  nameChars := by
    rw [List.all_append, h.nameChars]
    rfl
  lower := Or.inl (List.prefix_append _ _)

theorem definitionPair_eq (name value : Text) :
    definitionPair name value = definitionLead name ++ value := by
  simp [definitionPair, Declaration.pair, customDeclaration, definitionLead]

/-- What is read as a definition is read as the definition of the name. -/
theorem IsCustomName.property_of_ofText? (h : IsCustomName name) {line : Nat} {d : Declaration}
    (hd : Declaration.ofText? line (definitionPair name value) = some d) :
    d.property = "--".toList ++ name := by
  have hp := h.isPropertyText
  have hpair : definitionPair name value = ("--".toList ++ name) ++ ':' :: (' ' :: value) := by
    simp [definitionPair_eq, definitionLead]
  rw [hpair, Declaration.ofText?, splitOnce?_append (hp.not_mem (by decide))] at hd
  simp only [Option.bind_eq_bind, Option.bind_some] at hd
  split at hd
  · simp at hd
  · obtain rfl := Option.some.inj hd
    rw [Declaration.trim_name hp.isNameChar, hp.canonicalName_eq]

/-- No comment begins in front of a value. -/
theorem IsCustomName.isUncommented (h : IsCustomName name) :
    IsUncommented (definitionLead name) := by
  refine isUncommented_of_not_mem ?_
  rw [definitionLead, List.mem_append, not_or]
  exact ⟨h.isPropertyText.not_mem (by decide), by decide⟩

/-- **What makes a value read alone**: it ends nothing, and its definition is read back. -/
structure IsReadable (name value : Text) : Prop where
  /-- It has no comment. -/
  uncommented : ¬"/*".toList <:+: value
  /-- It ends no fragment. -/
  endsFragment_eq : ∀ c ∈ value, endsFragment c = false
  /-- Its definition is read back. -/
  reads : ∀ line, Declaration.ofText? line (trim (definitionPair name value)) =
    some (customDeclaration name value line)

theorem IsCustomName.stripComments_definitionText (h : IsCustomName name) (value : Text) :
    stripComments (definitionText name value) =
      definitionLead name ++ stripComments (value ++ [';']) := by
  rw [definitionText, definitionPair_eq, List.append_assoc, h.isUncommented]

/-- No fragment ends in front of a value. -/
theorem IsCustomName.endsFragment_lead (h : IsCustomName name) :
    ∀ c ∈ definitionLead name, endsFragment c = false := by
  have hends : ∀ c ∈ definitionLead name, Declaration.isNameChar c = true ∨ c ∈ ": ".toList := by
    intro c hc
    exact (List.mem_append.mp hc).imp_left (List.all_eq_true.mp h.isPropertyText.nameChars c)
  intro c hc
  refine Bool.eq_false_iff.mpr fun hfragment => ?_
  have hc := hends c hc
  rcases endsFragment_iff.mp hfragment with (rfl | rfl) | rfl <;> exact absurd hc (by decide)

theorem IsCustomName.takeWhile_lead_append (h : IsCustomName name) (t : Text) :
    (definitionLead name ++ t).takeWhile (!endsFragment ·) =
      definitionLead name ++ t.takeWhile (!endsFragment ·) :=
  List.takeWhile_append_of_pos fun c hc => by simp [h.endsFragment_lead c hc]

/-- The text of the first statement of a definition, whatever its value. -/
def firstStatement (name value : Text) : Text :=
  (stripComments (definitionText name value)).takeWhile (!endsFragment ·)

/-- **A value that is read alone is read from the first statement** of its definition: there is
no room for it behind. -/
theorem ReadsAlone.exists_mem_firstStatement (h : ReadsAlone name value) (hn : IsCustomName name) :
    ∃ line d, d.value = value ∧
      Declaration.ofText? line (trim (firstStatement name value)) = some d := by
  obtain ⟨d, hd, rfl⟩ := h
  have hmem : d ∈ (fragments 1 (stripComments (definitionText name d.value))).flatMap
      Fragment.declarations := by
    rw [Stylesheet.ofText, Rule.flatMap_declarations_mergeLoose, List.flatMap_assoc] at hd
    exact hd ▸ List.mem_singleton_self d
  have hlength : (stripComments (d.value ++ [';'])).length ≤ d.value.length + 1 :=
    Nat.le_trans (length_stripCommentsFrom_le false (d.value ++ [';'])) (by simp)
  have hshort : (stripComments (definitionText name d.value)).length ≤
      (firstStatement name d.value).length + d.value.length + 2 := by
    rw [firstStatement, hn.stripComments_definitionText, hn.takeWhile_lead_append]
    simp only [List.length_append]
    omega
  exact ⟨_, d, rfl, ofText?_of_mem_statement (mem_statement_of_length_le hmem hshort)⟩

/-- **A value that is read alone is read from its definition in one piece.** -/
theorem ReadsAlone.isReadable (h : ReadsAlone name value) (hn : IsCustomName name) :
    IsReadable name value := by
  obtain ⟨line, d, rfl, hread⟩ := h.exists_mem_firstStatement hn
  have hpiece : d.value <:+: firstStatement name d.value :=
    (value_infix_of_ofText? hread).1.trans (trim_isInfix _)
  have hends : ∀ c ∈ d.value, endsFragment c = false := fun c hc => by
    simpa using List.mem_takeWhile_imp (hpiece.subset hc)
  have huncommented : ¬"/*".toList <:+: d.value := fun hcomment =>
    not_comment_stripComments _
      (hcomment.trans (hpiece.trans (List.takeWhile_prefix _).isInfix))
  -- so the text had no comments, and the statement is the whole definition
  have hwhole : firstStatement name d.value = definitionPair name d.value := by
    have hborder : d.value.getLast? ≠ some '/' ∨ [';'].head? ≠ some '*' := Or.inr (by simp)
    have hstrip := stripComments_append huncommented hborder
    rw [firstStatement, hn.stripComments_definitionText, hstrip, hn.takeWhile_lead_append,
      definitionPair_eq]
    exact congrArg (_ ++ ·) (takeWhile_endsFragment_append hends [] (by decide))
  rw [hwhole] at hread
  have hproperty : d.property = "--".toList ++ name :=
    hn.property_of_ofText? (by rwa [ofText?_trim] at hread)
  refine ⟨huncommented, hends, fun line' => ?_⟩
  have hline := Declaration.ofText?_mapLine (fun _ => line') line
    (trim (definitionPair name d.value))
  rw [hline, hread, Option.map_some, customDeclaration, ← hproperty]
  rfl

/-! ### Definitions in front of a text -/

/-- The rule of a definition that stands outside every block. -/
def definitionRule (name value : Text) (line : Nat) : Rule where
  selectors := []
  declarations := [customDeclaration name value line]
  line := line

namespace IsReadable

variable (h : IsReadable name value) (hn : IsCustomName name)
include h hn

/-- No comment begins in a definition. -/
theorem isUncommented : IsUncommented (definitionText name value) := by
  have hvalue : IsUncommented (value ++ [';']) :=
    (isUncommented_of_not_mem (by decide)).append_cons h.uncommented (by decide)
  rw [definitionText, definitionPair_eq, List.append_assoc]
  exact hn.isUncommented.append hvalue

/-- **A definition is one statement**, at the line where it begins. -/
theorem fragments_append (line : Nat) (t : Text) :
    fragments line (definitionText name value ++ t) =
      .statement line (trim (definitionPair name value)) ::
        fragments (line + newlines (definitionPair name value)) t := by
  have hends : ∀ c ∈ definitionPair name value, endsFragment c = false := fun c hc => by
    rw [definitionPair_eq] at hc
    exact (List.mem_append.mp hc).elim (hn.endsFragment_lead c) (h.endsFragment_eq c)
  have hline : lineOf line (definitionPair name value) = line := rfl
  rw [definitionText, List.append_assoc, List.singleton_append, fragments_semicolon hends, hline]

omit hn in
/-- Nothing that is read as a declaration is an at-rule. -/
theorem not_at : isAtRule (trim (definitionPair name value)) = false := by
  refine Bool.eq_false_iff.mpr fun hat => ?_
  have hread := h.reads 0
  rw [ofText?_trim, ofText?_of_isAtRule hat] at hread
  simp at hread

omit hn in
theorem rules_statement (line : Nat) :
    (Fragment.statement line (trim (definitionPair name value))).rules =
      [definitionRule name value line] := by
  rw [Fragment.rules, h.not_at, h.reads]
  rfl

omit hn in
theorem diagnostics_statement (line : Nat) :
    (Fragment.statement line (trim (definitionPair name value))).diagnostics = [] := by
  rw [Fragment.diagnostics, h.not_at]
  rfl

/-- **A definition in front of a text is read as a rule of its own**, and the text is read as
without it, further down. -/
theorem fragmentsOf_append (t : Text) :
    let move := newlines (definitionLine name value)
    (Stylesheet.fragmentsOf (definitionLine name value ++ t)).flatMap Fragment.rules =
        definitionRule name value 1 ::
          ((Stylesheet.fragmentsOf t).flatMap Fragment.rules).map (Rule.mapLine (· + move)) ∧
      (Stylesheet.fragmentsOf (definitionLine name value ++ t)).flatMap Fragment.diagnostics =
        ((Stylesheet.fragmentsOf t).flatMap Fragment.diagnostics).map
          (Diagnostic.mapLine (· + move)) := by
  intro move
  have hbreak : IsUncommented ['\n'] := isUncommented_of_not_mem (by decide)
  have hmove : 1 + newlines (definitionPair name value) + newlines ['\n'] = 1 + move := by
    simp only [move, definitionLine, definitionText, newlines_append]
    rfl
  have hfragments : Stylesheet.fragmentsOf (definitionLine name value ++ t) =
      .statement 1 (trim (definitionPair name value)) ::
        fragments (1 + move) (stripComments t) := by
    rw [Stylesheet.fragmentsOf, definitionLine, List.append_assoc, h.isUncommented hn, hbreak,
      h.fragments_append hn, fragments_blank_append (by decide), hmove]
  rw [hfragments, List.flatMap_cons, List.flatMap_cons, h.rules_statement, h.diagnostics_statement,
    flatMap_rules_fragments_add, flatMap_diagnostics_fragments_add]
  exact ⟨rfl, rfl⟩

/-- What is read in front of any text is read alone. -/
theorem readsAlone : ReadsAlone name value := by
  have hstrip := (h.isUncommented hn).stripComments_eq
  have hfragments := h.fragments_append hn 1 []
  rw [List.append_nil] at hfragments
  refine ⟨customDeclaration name value 1, ?_, rfl⟩
  rw [Stylesheet.ofText, Rule.flatMap_declarations_mergeLoose, Stylesheet.fragmentsOf, hstrip,
    hfragments, List.flatMap_cons, h.rules_statement, flatMap_rules_fragments_nil]
  rfl

end IsReadable

/-- **A value that can be written is readable**, if no semicolon or brace is hidden in it. -/
theorem isReadable_of_isValueText (hn : IsCustomName name) (hv : IsValueText value)
    (hends : ∀ c ∈ value, endsFragment c = false) : IsReadable name value where
  uncommented := hv.uncommented
  endsFragment_eq := hends
  reads line := by
    rw [ofText?_trim]
    exact ofText?_append_pair (d := customDeclaration name value 0) isAllBlank_nil
      hn.isPropertyText hv line

end Definition

end CssResources
