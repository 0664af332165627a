import CssResources.Proofs.Stylesheet.Scanning

/-!
# Rules that are written out are read back

A rule is written as its selectors in a row, and a block with a line for each declaration
(`CssResources.Rule.written`). Where the lines break and how they are indented is a parameter
(`CssResources.Layout`), as reading does not depend on it.

Rules that are written so are read back, with their selectors, properties and values, and
nothing is reported (`CssResources.rules_ofText_written`). This asks of their texts
(`CssResources.Rule.IsWritable`) only that a reader could tell where they end: **brackets and
quotes may hold any separator**, as long as they are closed.
-/

namespace CssResources

/-! ### Writing -/

/-- **The blanks of a layout**, all of which may be missing. -/
structure Layout where
  /-- What stands after the brace that opens a block. -/
  opening : Text
  /-- What stands in front of a declaration. -/
  indent : Text
  /-- What stands after a declaration. -/
  lineEnd : Text
  /-- What stands after a block. -/
  ruleEnd : Text
  /-- The text after the opening brace is blank. -/
  isAllBlank_opening : isAllBlank opening = true
  /-- The text in front of a declaration is blank. -/
  isAllBlank_indent : isAllBlank indent = true
  /-- The text after a declaration is blank. -/
  isAllBlank_lineEnd : isAllBlank lineEnd = true
  /-- The text after a block is blank. -/
  isAllBlank_ruleEnd : isAllBlank ruleEnd = true

/-- The property and the value of a declaration, as they are written. -/
def Declaration.pair (d : Declaration) : Text := d.property ++ (": ".toList ++ d.value)

/-- **A declaration written out**, with a semicolon. -/
def Declaration.written (layout : Layout) (d : Declaration) : Text :=
  layout.indent ++ (d.pair ++ ';' :: layout.lineEnd)

/-- The inside of the block of a rule. -/
def Rule.body (layout : Layout) (r : Rule) : Text :=
  layout.opening ++ r.declarations.flatMap (Declaration.written layout)

/-- The selectors of a rule, with commas between them. -/
def Rule.head (r : Rule) : Text := ", ".toList.intercalate r.selectors

/-- **A rule written out.** -/
def Rule.written (layout : Layout) (r : Rule) : Text :=
  r.head ++ ' ' :: '{' :: (r.body layout ++ '}' :: layout.ruleEnd)

/-- **What a rule says**, wherever it stands: its selectors, its properties and their values. -/
def Rule.content (r : Rule) : List Text × List (Text × Text) :=
  (r.selectors, r.declarations.map fun d => (d.property, d.value))

/-! ### What can be written -/

/-- **A selector that can be written.** -/
structure IsSelectorText (s : Text) : Prop where
  /-- It has a character. -/
  ne_nil : s ≠ []
  /-- It has no blanks at its ends. -/
  trimmed : trim s = s
  /-- It opens no block. -/
  opening : '{' ∉ s
  /-- It closes no block. -/
  closing : '}' ∉ s
  /-- It ends no statement. -/
  semicolon : ';' ∉ s
  /-- It has no comment. -/
  uncommented : ¬"/*".toList <:+: s
  /-- Its brackets are balanced. -/
  brackets : Brackets.roundAndSquare.IsBalanced s
  /-- Its commas stand in brackets. -/
  commas : ',' ∉ Brackets.roundAndSquare.outside 0 s

/-- **A property that can be written**, in lower case unless it begins with two dashes. -/
structure IsPropertyText (s : Text) : Prop where
  /-- It has a character. -/
  ne_nil : s ≠ []
  /-- It has letters, digits, dashes and underscores only. -/
  nameChars : s.all Declaration.isNameChar = true
  /-- It is in lower case, unless it begins with two dashes. -/
  lower : "--".toList <+: s ∨ lowerAscii s = s

/-- **A value that can be written.** -/
structure IsValueText (s : Text) : Prop extends IsSegment s where
  /-- It has a character. -/
  ne_nil : s ≠ []
  /-- It has no blanks at its ends. -/
  trimmed : trim s = s
  /-- It has no comment. -/
  uncommented : ¬"/*".toList <:+: s

/-- **A rule that can be written.** -/
structure Rule.IsWritable (r : Rule) : Prop where
  /-- It has a selector. -/
  selectors_ne_nil : r.selectors ≠ []
  /-- Its selectors can be written. -/
  selectors : ∀ s ∈ r.selectors, IsSelectorText s
  /-- It does not begin like an at-rule. -/
  not_at : ∀ s ∈ r.selectors.head?, s.head? ≠ some '@'
  /-- Its properties can be written. -/
  properties : ∀ d ∈ r.declarations, IsPropertyText d.property
  /-- Its values can be written. -/
  values : ∀ d ∈ r.declarations, IsValueText d.value

/-! ### Blanks and names -/

/-- A blank is no mark. -/
theorem not_mem_blockMarks_of_isBlank {c : Char} (h : isBlank c = true) : c ∉ blockMarks := by
  have hmarks : blockMarks.all (!isBlank ·) = true := by decide
  intro hc
  simpa [h] using List.all_eq_true.mp hmarks c hc

theorem isSegment_of_isAllBlank {t : Text} (h : isAllBlank t = true) : IsSegment t :=
  isSegment_of_not_mem fun _ hc => not_mem_blockMarks_of_isBlank (isBlank_of_mem_isAllBlank h hc)

theorem isUncommented_of_isAllBlank {t : Text} (h : isAllBlank t = true) : IsUncommented t :=
  isUncommented_of_not_mem (not_mem_of_isAllBlank h (by decide))

/-! ### Heads -/

section Head

variable {ss : List Text}

theorem IsSelectorText.endsFragment_eq {s : Text} (h : IsSelectorText s) {c : Char} (hc : c ∈ s) :
    endsFragment c = false := by
  refine Bool.eq_false_iff.mpr fun hends => ?_
  rcases endsFragment_iff.mp hends with (rfl | rfl) | rfl
  · exact h.opening hc
  · exact h.semicolon hc
  · exact h.closing hc

/-- A blank is no bracket. -/
theorem isBalanced_of_isAllBlank {t : Text} (h : isAllBlank t = true) :
    Brackets.roundAndSquare.IsBalanced t := by
  have hopens : Brackets.roundAndSquare.opens.all (!isBlank ·) = true := by decide
  have hcloses : Brackets.roundAndSquare.closes.all (!isBlank ·) = true := by decide
  refine Brackets.depthAtEnd?_of_not_mem (fun c hc => ?_) 0
  have hblank := isBlank_of_mem_isAllBlank h hc
  constructor
  · intro hc
    simpa [hblank] using List.all_eq_true.mp hopens c hc
  · intro hc
    simpa [hblank] using List.all_eq_true.mp hcloses c hc

/-- A group goes on after a selector, with blanks in front of it. -/
theorem IsSelectorText.selectorParts_append {s lead : Text} (h : IsSelectorText s)
    (hlead : isAllBlank lead = true) (t : Text) :
    selectorParts 0 (lead ++ s ++ t) = (lead ++ s).foldr consHead (selectorParts 0 t) := by
  have hbalanced := isBalanced_of_isAllBlank hlead
  refine CssResources.selectorParts_append (hbalanced.append h.brackets) (fun hcomma => ?_) t
  rw [Brackets.outside_append _ hbalanced, List.mem_append] at hcomma
  rcases hcomma with hcomma | hcomma
  · exact not_mem_of_isAllBlank hlead (by decide) ((Brackets.outside_sublist _ _ _).subset hcomma)
  · exact h.commas hcomma

theorem IsSelectorText.trim_append {s lead : Text} (h : IsSelectorText s)
    (hlead : isAllBlank lead = true) : trim (lead ++ s) = s := by
  rw [trim_blank_append hlead, h.trimmed]

/-- **The parts of a group are the selectors** that it was written from. -/
theorem map_trim_selectorParts {lead : Text} (hlead : isAllBlank lead = true) (hss : ss ≠ [])
    (h : ∀ s ∈ ss, IsSelectorText s) :
    (selectorParts 0 (lead ++ ", ".toList.intercalate ss)).map trim = ss := by
  induction ss generalizing lead with
  | nil => exact absurd rfl hss
  | cons s ss ih =>
    have hs := h s (List.mem_cons_self ..)
    cases ss with
    | nil =>
      have hparts := hs.selectorParts_append hlead []
      rw [List.append_nil, selectorParts, foldr_consHead, List.append_nil] at hparts
      rw [List.intercalate_singleton, hparts, List.map_singleton, hs.trim_append hlead]
    | cons s' ss =>
      have hspace : isAllBlank [' '] = true := rfl
      have hrest := ih hspace (List.cons_ne_nil _ _) fun s hs => h s (List.mem_cons_of_mem _ hs)
      have hwritten : lead ++ ", ".toList.intercalate (s :: s' :: ss) =
          lead ++ s ++ ',' :: ([' '] ++ ", ".toList.intercalate (s' :: ss)) := by
        rw [List.intercalate_cons_cons]
        simp
      rw [hwritten, hs.selectorParts_append hlead, selectorParts, if_pos ⟨rfl, rfl⟩,
        foldr_consHead, List.append_nil, List.map_cons, hrest, hs.trim_append hlead]

variable {r : Rule}

theorem Rule.IsWritable.selectorsOf_head (h : r.IsWritable) : selectorsOf r.head = r.selectors := by
  have hparts := map_trim_selectorParts isAllBlank_nil h.selectors_ne_nil h.selectors
  rw [selectorsOf, Rule.head, ← List.nil_append (List.intercalate _ _), hparts,
    List.filter_eq_self]
  intro s hs
  simpa using (h.selectors s hs).ne_nil

/-- A head begins with its first selector. -/
theorem Rule.IsWritable.head?_head (h : r.IsWritable) :
    ∃ s ∈ r.selectors.head?, r.head.head? = s.head? := by
  obtain ⟨s, ss, hss⟩ := List.exists_cons_of_ne_nil h.selectors_ne_nil
  refine ⟨s, by simp [hss], ?_⟩
  rw [Rule.head, hss, head?_intercalate _ (h.selectors s (by simp [hss])).ne_nil]

theorem Rule.IsWritable.trim_head (h : r.IsWritable) : trim r.head = r.head := by
  rw [trim_eq_self_iff]
  constructor
  · obtain ⟨s, hs, hhead⟩ := h.head?_head
    rw [hhead]
    exact (trim_eq_self_iff.mp (h.selectors s (List.mem_of_mem_head? hs)).trimmed).1
  · obtain ⟨s, hs, hlast⟩ := getLast?_intercalate ", ".toList h.selectors_ne_nil fun s hs =>
      (h.selectors s hs).ne_nil
    rw [Rule.head, hlast]
    exact (trim_eq_self_iff.mp (h.selectors s hs).trimmed).2

theorem Rule.IsWritable.isAtRule_head (h : r.IsWritable) : isAtRule r.head = false := by
  obtain ⟨s, hs, hhead⟩ := h.head?_head
  rw [isAtRule, hhead]
  simpa using h.not_at s hs

/-- A head ends with its block only. -/
theorem Rule.IsWritable.endsFragment_head (h : r.IsWritable) :
    ∀ c ∈ r.head, endsFragment c = false := by
  have hall : r.head.all (!endsFragment ·) = true := by
    refine intercalate_induction (P := fun t => t.all (!endsFragment ·) = true) _ rfl
      (fun s t hs ht => ?_) (by decide) fun s hs => ?_
    · rw [List.all_append, hs, ht]
      rfl
    · exact List.all_eq_true.mpr fun c hc => by simp [(h.selectors s hs).endsFragment_eq hc]
  intro c hc
  simpa using List.all_eq_true.mp hall c hc

/-- **No comment begins in a head.** -/
theorem isUncommented_intercalate (h : ∀ s ∈ ss, IsSelectorText s) {t : Text}
    (ht : IsUncommented (' ' :: t)) : IsUncommented (", ".toList.intercalate ss ++ ' ' :: t) := by
  induction ss with
  | nil => exact ht
  | cons s ss ih =>
    have hs := (h s (List.mem_cons_self ..)).uncommented
    cases ss with
    | nil =>
      rw [List.intercalate_singleton]
      exact ht.append_cons hs (by decide)
    | cons s' ss =>
      have hrest := ih fun s hs => h s (List.mem_cons_of_mem _ hs)
      have hcomma : IsUncommented ", ".toList := isUncommented_of_not_mem (by decide)
      rw [List.intercalate_cons_cons, List.append_assoc, List.append_assoc]
      exact (hcomma.append hrest).append_cons hs (by decide)

end Head

/-! ### Declarations -/

namespace Declaration

/-- The characters of names lie between the dash and the small z. -/
theorem toNat_of_isNameChar {c : Char} (h : isNameChar c = true) :
    45 ≤ c.toNat ∧ c.toNat ≤ 122 := by
  rw [isNameChar, Bool.or_eq_true, Bool.or_eq_true, beq_iff_eq, beq_iff_eq] at h
  rcases h with (h | rfl) | rfl
  · have hrange := toNat_of_isAlphanum h
    omega
  · decide
  · decide

/-- No character of a name is blank. -/
theorem isBlank_of_isNameChar {c : Char} (h : isNameChar c = true) : isBlank c = false := by
  rcases hb : isBlank c with _ | _
  · rfl
  · have hblank := toNat_of_isBlank hb
    have hname := toNat_of_isNameChar h
    omega

theorem isNameChar_toLower {c : Char} (h : isNameChar c = true) :
    isNameChar c.toLower = true := by
  have hascii : ∀ n < 128, isNameChar (Char.ofNat n) = true →
      isNameChar (Char.ofNat n).toLower = true := by decide +kernel
  have hc : c.toNat < 128 := Nat.lt_of_le_of_lt (toNat_of_isNameChar h).2 (by decide)
  have hlower : isNameChar c = true → isNameChar c.toLower = true := forall_ascii hc hascii
  exact hlower h

/-- **A name in lower case has characters of names**, if it had them before. -/
theorem isNameChar_of_mem_canonicalName {name : Text} (h : ∀ c ∈ name, isNameChar c = true)
    {c : Char} (hc : c ∈ canonicalName name) : isNameChar c = true := by
  rw [canonicalName] at hc
  split at hc
  · exact h c hc
  · obtain ⟨x, hx, rfl⟩ := List.mem_map.mp hc
    exact isNameChar_toLower (h x hx)

/-! Names as they are written, in any case. -/

section Name

variable {name : Text} (hname : ∀ c ∈ name, isNameChar c = true)
include hname

/-- A name has no other characters than those of names. -/
theorem not_mem_name {m : Char} (hm : isNameChar m = false) : m ∉ name := fun hmem => by
  simp [hname m hmem] at hm

theorem trim_name : trim name = name := by
  have hblank : ∀ c ∈ name, isBlank c = false := fun c hc => isBlank_of_isNameChar (hname c hc)
  exact trim_eq_self_iff.mpr ⟨fun c hc => hblank c (List.mem_of_mem_head? hc),
    fun c hc => hblank c (List.mem_of_mem_getLast? hc)⟩

/-- A name has none of the marks of a block. -/
theorem isSegment_name : IsSegment name := by
  have hmarks : blockMarks.all (!isNameChar ·) = true := by decide
  refine isSegment_of_not_mem fun c hc hmark => not_mem_name hname ?_ hc
  simpa using List.all_eq_true.mp hmarks c hmark

variable {lead v : Text} (hlead : isAllBlank lead = true) (hv : IsValueText v)
include hlead hv

/-- A name and a value, with blanks in front of them, stay in their segment. -/
theorem isSegment_append_name : IsSegment (lead ++ (name ++ (": ".toList ++ v))) := by
  have hcolon : IsSegment ": ".toList :=
    ⟨⟨rfl, by decide, by decide⟩, by decide, by decide⟩
  exact (isSegment_of_isAllBlank hlead).append
    ((isSegment_name hname).append (hcolon.append hv.toIsSegment))

/-- **A name and a value are read as a declaration**, whatever blanks stand in front of them. -/
theorem ofText?_append_name (hne : name ≠ []) (line : Nat) :
    ofText? line (lead ++ (name ++ (": ".toList ++ v))) =
      some { property := canonicalName name, value := v, line } := by
  have hcolon : ':' ∉ lead ++ name := by
    rw [List.mem_append, not_or]
    exact ⟨not_mem_of_isAllBlank hlead (by decide), not_mem_name hname (by decide)⟩
  have hpair : lead ++ (name ++ (": ".toList ++ v)) = (lead ++ name) ++ ':' :: (' ' :: v) := by
    simp
  have hproperty : trim (lead ++ name) = name := by
    rw [trim_blank_append hlead, trim_name hname]
  have hspace : isAllBlank [' '] = true := rfl
  have hvalue : trim (' ' :: v) = v := (trim_blank_append hspace v).trans hv.trimmed
  have hsemicolon : trimEndOf ';' v = v := trimEndOf_eq_self hv.getLast?_ne_semicolon
  rw [ofText?, hpair, splitOnce?_append hcolon]
  simpa [hproperty, hvalue, hsemicolon, hv.trimmed, hne, hv.ne_nil] using hname

end Name

end Declaration

namespace IsPropertyText

variable {s : Text}

theorem isNameChar (h : IsPropertyText s) : ∀ c ∈ s, Declaration.isNameChar c = true :=
  List.all_eq_true.mp h.nameChars

/-- A property has no other characters than those of names. -/
theorem not_mem (h : IsPropertyText s) {m : Char} (hm : Declaration.isNameChar m = false) :
    m ∉ s :=
  Declaration.not_mem_name h.isNameChar hm

theorem canonicalName_eq (h : IsPropertyText s) : Declaration.canonicalName s = s := by
  rw [Declaration.canonicalName]
  split
  · rfl
  · rename_i hdashes
    refine h.lower.resolve_left fun hcustom => hdashes ?_
    obtain ⟨rest, rfl⟩ := hcustom
    rw [afterStart?_eq_some_iff.mpr rfl]
    rfl

end IsPropertyText

section Pair

variable {d : Declaration} {lead : Text}

theorem isSegment_append_pair (hlead : isAllBlank lead = true) (hp : IsPropertyText d.property)
    (hv : IsValueText d.value) : IsSegment (lead ++ d.pair) :=
  Declaration.isSegment_append_name hp.isNameChar hlead hv

/-- **A declaration is read back**, whatever blanks stand in front of it. -/
theorem ofText?_append_pair (hlead : isAllBlank lead = true) (hp : IsPropertyText d.property)
    (hv : IsValueText d.value) (line : Nat) :
    Declaration.ofText? line (lead ++ d.pair) = some { d with line } := by
  rw [Declaration.pair, Declaration.ofText?_append_name hp.isNameChar hlead hv hp.ne_nil,
    hp.canonicalName_eq]

end Pair

section Block

variable {ds : List Declaration} (layout : Layout) {lead : Text}

/-- A declaration written out, between blanks, is a segment and what follows it. -/
theorem append_written (lead : Text) (d : Declaration) (rest : Text) :
    lead ++ (d.written layout ++ rest) =
      (lead ++ layout.indent) ++ d.pair ++ ';' :: (layout.lineEnd ++ rest) := by
  simp [Declaration.written]

/-- **The declarations of a block are those that it was written from**, each with its property
and its value. -/
theorem map_declarationsOf_append (hlead : isAllBlank lead = true)
    (hp : ∀ d ∈ ds, IsPropertyText d.property) (hv : ∀ d ∈ ds, IsValueText d.value) (line : Nat) :
    (declarationsOf line (lead ++ ds.flatMap (Declaration.written layout))).map
        (fun d => (d.property, d.value)) = ds.map fun d => (d.property, d.value) := by
  rw [declarationsOf]
  induction ds generalizing lead line with
  | nil =>
    have hcolon : ':' ∉ lead := not_mem_of_isAllBlank hlead (by decide)
    rw [List.flatMap_nil, List.append_nil, (isSegment_of_isAllBlank hlead).bodySegments_eq]
    simp [segmentDeclarations, segmentDeclaration?, Declaration.ofText?,
      splitOnce?_of_not_mem hcolon]
  | cons d ds ih =>
    have hindent : isAllBlank (lead ++ layout.indent) = true := by
      rw [isAllBlank_append, hlead, layout.isAllBlank_indent]
      rfl
    have hpd := hp d (List.mem_cons_self ..)
    have hvd := hv d (List.mem_cons_self ..)
    have hrest := ih layout.isAllBlank_lineEnd
      (fun d hd => hp d (List.mem_cons_of_mem _ hd)) fun d hd => hv d (List.mem_cons_of_mem _ hd)
    rw [List.flatMap_cons, append_written,
      (isSegment_append_pair hindent hpd hvd).bodySegments_append_semicolon, segmentDeclarations,
      segmentDeclaration?, ofText?_append_pair hindent hpd hvd, List.map_append, hrest]
    rfl

end Block

/-! ### Rules -/

section Sheet

variable (layout : Layout) {r : Rule}

theorem staysInBlock_semicolon : StaysInBlock [';'] := ⟨rfl, by decide, by decide⟩

/-- A declaration stays in its block, with the semicolon after it. -/
theorem staysInBlock_written {d : Declaration} (hp : IsPropertyText d.property)
    (hv : IsValueText d.value) : StaysInBlock (d.written layout) := by
  have hpair := isSegment_append_pair layout.isAllBlank_indent hp hv
  have hend := isSegment_of_isAllBlank layout.isAllBlank_lineEnd
  have hwritten : d.written layout =
      (layout.indent ++ d.pair) ++ ([';'] ++ layout.lineEnd) := by
    simp [Declaration.written]
  rw [hwritten]
  exact hpair.toStaysInBlock.append (staysInBlock_semicolon.append hend.toStaysInBlock)

/-- **The block of a rule ends with the rule.** -/
theorem Rule.IsWritable.staysInBlock_body (h : r.IsWritable) : StaysInBlock (r.body layout) :=
  (isSegment_of_isAllBlank layout.isAllBlank_opening).toStaysInBlock.append
    (staysInBlock_flatMap fun d hd =>
      staysInBlock_written layout (h.properties d hd) (h.values d hd))

/-- **No comment begins in a declaration.** -/
theorem isUncommented_written {d : Declaration} (hp : IsPropertyText d.property)
    (hv : IsValueText d.value) : IsUncommented (d.written layout) := by
  have hend : IsUncommented (';' :: layout.lineEnd) :=
    IsUncommented.append (s := [';']) (isUncommented_of_not_mem (by decide))
      (isUncommented_of_isAllBlank layout.isAllBlank_lineEnd)
  have hproperty : IsUncommented d.property := isUncommented_of_not_mem (hp.not_mem (by decide))
  have hcolon : IsUncommented ": ".toList := isUncommented_of_not_mem (by decide)
  have hvalue : IsUncommented (d.value ++ ';' :: layout.lineEnd) :=
    hend.append_cons hv.uncommented (by decide)
  have hwritten : d.written layout =
      layout.indent ++ (d.property ++ (": ".toList ++ (d.value ++ ';' :: layout.lineEnd))) := by
    simp [Declaration.written, Declaration.pair]
  rw [hwritten]
  exact (isUncommented_of_isAllBlank layout.isAllBlank_indent).append
    (hproperty.append (hcolon.append hvalue))

/-- **No comment begins in a rule.** -/
theorem Rule.IsWritable.isUncommented (h : r.IsWritable) : IsUncommented (r.written layout) := by
  have hopen : IsUncommented [' ', '{'] := isUncommented_of_not_mem (by decide)
  have hbody : IsUncommented (r.body layout) :=
    (isUncommented_of_isAllBlank layout.isAllBlank_opening).append
      (isUncommented_flatMap fun d hd =>
        isUncommented_written layout (h.properties d hd) (h.values d hd))
  have hclose : IsUncommented ['}'] := isUncommented_of_not_mem (by decide)
  have hend := isUncommented_of_isAllBlank layout.isAllBlank_ruleEnd
  exact isUncommented_intercalate h.selectors
    (hopen.append (hbody.append (hclose.append hend)))

/-- **A rule that was written out is one fragment**, with blanks in front of it. -/
theorem Rule.IsWritable.fragments_append (h : r.IsWritable) {lead : Text}
    (hlead : isAllBlank lead = true) (line : Nat) (rest : Text) :
    ∃ line₁ line₂ line₃, fragments line (lead ++ (r.written layout ++ rest)) =
      .block line₁ r.head line₂ (r.body layout) ::
        fragments line₃ (layout.ruleEnd ++ rest) := by
  have hwritten : lead ++ (r.written layout ++ rest) =
      (lead ++ (r.head ++ [' '])) ++ '{' :: (r.body layout ++ '}' :: (layout.ruleEnd ++ rest)) := by
    simp [Rule.written]
  have hends : ∀ c ∈ lead ++ (r.head ++ [' ']), endsFragment c = false := by
    intro c hc
    simp only [List.mem_append, List.mem_singleton] at hc
    rcases hc with hc | hc | rfl
    · exact endsFragment_of_isBlank (isBlank_of_mem_isAllBlank hlead hc)
    · exact h.endsFragment_head c hc
    · decide
  have htrim : trim (lead ++ (r.head ++ [' '])) = r.head := by
    rw [trim_between_blanks hlead rfl, h.trim_head]
  rw [hwritten, fragments_block hends (h.staysInBlock_body layout).closesBlocks, htrim]
  exact ⟨_, _, _, rfl⟩

/-- **The rule of this fragment says what the rule said**, and nothing is reported. -/
theorem Rule.IsWritable.map_content_rules (h : r.IsWritable) (line line' : Nat) :
    (Fragment.block line r.head line' (r.body layout)).rules.map Rule.content = [r.content] ∧
      (Fragment.block line r.head line' (r.body layout)).diagnostics = [] := by
  have hdropped := (h.staysInBlock_body layout).dropNested_eq line'
  have hdeclarations := map_declarationsOf_append layout layout.isAllBlank_opening
    h.properties h.values line'
  constructor
  · obtain ⟨s, ss, hss⟩ := List.exists_cons_of_ne_nil h.selectors_ne_nil
    rw [Fragment.rules, h.isAtRule_head, hdropped, h.selectorsOf_head, Rule.content, hss,
      ← hdeclarations]
    rfl
  · rw [Fragment.diagnostics, h.isAtRule_head, hdropped]
    rfl

/-- **The fragments of rules that were written out** are those of the rules, one by one. -/
theorem map_content_fragments {rs : List Rule} (h : ∀ r ∈ rs, r.IsWritable) {lead : Text}
    (hlead : isAllBlank lead = true) (line : Nat) :
    let fs := fragments line (lead ++ rs.flatMap (Rule.written layout))
    (fs.flatMap Fragment.rules).map Rule.content = rs.map Rule.content ∧
      fs.flatMap Fragment.diagnostics = [] := by
  induction rs generalizing lead line with
  | nil =>
    obtain ⟨line', hblank⟩ := fragments_of_isAllBlank hlead line
    rw [List.flatMap_nil, List.append_nil, hblank]
    exact ⟨rfl, rfl⟩
  | cons r rs ih =>
    have hr := h r (List.mem_cons_self ..)
    obtain ⟨line₁, line₂, line₃, hfragments⟩ := hr.fragments_append layout hlead line
      (rs.flatMap (Rule.written layout))
    obtain ⟨hrules, hdiagnostics⟩ := hr.map_content_rules layout line₁ line₂
    obtain ⟨hrest, hrest'⟩ := ih (fun r hr => h r (List.mem_cons_of_mem _ hr))
      layout.isAllBlank_ruleEnd line₃
    dsimp only
    rw [List.flatMap_cons, hfragments, List.flatMap_cons, List.flatMap_cons, List.map_append,
      hrules, hrest, hdiagnostics, hrest']
    exact ⟨rfl, rfl⟩

/-- Rules with selectors are not merged. -/
theorem mergeLoose_of_ne_nil {rs : List Rule} (h : ∀ r ∈ rs, r.selectors ≠ []) :
    Rule.mergeLoose rs = rs := by
  induction rs with
  | nil => rfl
  | cons r rs ih =>
    rw [Rule.mergeLoose_cons, ih fun r hr => h r (List.mem_cons_of_mem _ hr)]
    have hr : r.selectors.isEmpty = false := by simpa using h r (List.mem_cons_self ..)
    cases rs with
    | nil => rfl
    | cons s rs => simp [Rule.mergeInto, hr]

end Sheet

/-! ### The theorem -/

/-- **Rules that are written out are read back**, with their selectors, properties and values in
order, and nothing is reported. -/
theorem rules_ofText_written (layout : Layout) (rs : List Rule) (h : ∀ r ∈ rs, r.IsWritable) :
    let sheet := Stylesheet.ofText (rs.flatMap (Rule.written layout))
    sheet.rules.map Rule.content = rs.map Rule.content ∧ sheet.diagnostics = [] := by
  have hcomments : stripComments (rs.flatMap (Rule.written layout)) =
      rs.flatMap (Rule.written layout) := by
    have huncommented : IsUncommented (rs.flatMap (Rule.written layout)) :=
      isUncommented_flatMap fun r hr => (h r hr).isUncommented layout
    simpa using huncommented []
  obtain ⟨hrules, hdiagnostics⟩ := map_content_fragments layout h isAllBlank_nil 1
  rw [List.nil_append] at hrules hdiagnostics
  have hselectors : ∀ r ∈ (fragments 1 (rs.flatMap (Rule.written layout))).flatMap Fragment.rules,
      r.selectors ≠ [] := by
    intro r hr
    obtain ⟨r', hr', hcontent⟩ := List.mem_map.mp (hrules ▸ List.mem_map_of_mem hr)
    have heq : r'.selectors = r.selectors := congrArg Prod.fst hcontent
    exact heq ▸ (h r' hr').selectors_ne_nil
  rw [Stylesheet.ofText, Stylesheet.fragmentsOf, hcomments]
  exact ⟨by rw [mergeLoose_of_ne_nil hselectors, hrules], hdiagnostics⟩

/-- A layout with a line for each declaration. -/
def lines : Layout where
  opening := ['\n']
  indent := "  ".toList
  lineEnd := ['\n']
  ruleEnd := ['\n']
  isAllBlank_opening := rfl
  isAllBlank_indent := rfl
  isAllBlank_lineEnd := rfl
  isAllBlank_ruleEnd := rfl

/-- A rule with commas in brackets, a semicolon in parentheses, and braces in quotes. -/
def badge : Rule where
  selectors := ["a:not(.b, [lang])".toList, "p".toList]
  declarations :=
    [⟨"background-color".toList, "url(data:x;y) 1px".toList, 1⟩,
     ⟨"--Mark".toList, "'\x7b;\x7d'".toList, 2⟩]
  line := 1

theorem isWritable_badge : badge.IsWritable where
  selectors_ne_nil := by decide
  selectors := by
    have hlink : IsSelectorText "a:not(.b, [lang])".toList :=
      ⟨by decide, by decide, by decide, by decide, by decide,
        not_comment_of_not_mem (by decide), by decide, by decide⟩
    have htag : IsSelectorText "p".toList :=
      ⟨by decide, by decide, by decide, by decide, by decide,
        not_comment_of_not_mem (by decide), by decide, by decide⟩
    simpa [badge] using ⟨hlink, htag⟩
  not_at := by decide
  properties := by
    have hbackground : IsPropertyText "background-color".toList :=
      ⟨by decide, by decide, by decide⟩
    have hcustom : IsPropertyText "--Mark".toList := ⟨by decide, by decide, by decide⟩
    simpa [badge] using ⟨hbackground, hcustom⟩
  values := by
    have hfunction : IsValueText "url(data:x;y) 1px".toList :=
      ⟨⟨⟨by decide, by decide, by decide⟩, by decide, by decide⟩, by decide, by decide,
        not_comment_of_not_mem (by decide)⟩
    have hquoted : IsValueText "'\x7b;\x7d'".toList :=
      ⟨⟨⟨by decide, by decide, by decide⟩, by decide, by decide⟩, by decide, by decide,
        not_comment_of_not_mem (by decide)⟩
    simpa [badge] using ⟨hfunction, hquoted⟩

/-- Two rules that can be written. -/
theorem isWritable_of_mem_badges : ∀ r ∈ [badge, badge], r.IsWritable := fun r hr => by
  obtain rfl : r = badge := by simpa using hr
  exact isWritable_badge

theorem rules_ofText_written_badge :
    (∀ r ∈ [badge, badge], r.IsWritable) ∧
      (Stylesheet.ofText ([badge, badge].flatMap (Rule.written lines))).rules.map Rule.content =
        [badge, badge].map Rule.content :=
  ⟨isWritable_of_mem_badges, (rules_ofText_written lines [badge, badge] isWritable_of_mem_badges).1⟩

example : badge.written lines =
    "a:not(.b, [lang]), p \x7b\n".toList ++ "  background-color: url(data:x;y) 1px;\n".toList
      ++ "  --Mark: '\x7b;\x7d';\n\x7d\n".toList := by
  decide

end CssResources
