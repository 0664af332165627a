import CssResources.Proofs.Markup.Document
import CssResources.Proofs.Session.Unresolved
import CssResources.Proofs.Text.Encoding
import Mathlib.Algebra.Order.BigOperators.Group.List
import Mathlib.Algebra.Order.Ring.Nat
import Mathlib.Data.List.Infix

/-!
# The statistics count what a document holds

The statistics of a conversion are counted on its styles and colors, and its document is
written from them another way. Here the document is asked: how often does the mark of an
element, or that of a comment, begin in its text (`CssResources.occurrences`)?

A mark begins with `<`, so it does not begin in a name or in a value, where this is written
as an entity (`CssResources.Markup.IsMark.occurrences_append_of_not_mem`). And it does not lie
across the border of two pieces, as no mark goes on after the character that a piece ends with
(`CssResources.Markup.IsMark.occurrences_append`). So only the pieces that are the same in every
document count:

| piece | counted |
|---|---|
| the tags of an element of an item or a color | once for each |
| the tags of a style | once for each |
| the mark that opens a comment | once for each item or color that is commented out |

This holds in a comment too, where the dashes of a name and a value are shortened but the tags
have none.
-/

namespace CssResources

/-! ### Occurrences -/

/-- **The number of places in a text where a pattern begins.** -/
def occurrences (pattern t : Text) : Nat := t.tails.countP pattern.isPrefixOf

theorem occurrences_nil {pattern : Text} (hne : pattern ≠ []) : occurrences pattern [] = 0 := by
  obtain ⟨c, cs, rfl⟩ := List.exists_cons_of_ne_nil hne
  rfl

theorem occurrences_cons (pattern : Text) (c : Char) (t : Text) :
    occurrences pattern (c :: t) =
      occurrences pattern t + if pattern.isPrefixOf (c :: t) then 1 else 0 := by
  rw [occurrences, List.tails_cons, List.countP_cons, occurrences]

/-- A pattern that begins in the first of two texts ends in it, unless it goes on after the
last character of this text. -/
theorem isPrefixOf_append {pattern s : Text} (hs : s ≠ [])
    (hlast : ∀ c ∈ s.getLast?, c ∉ pattern.dropLast) (t : Text) :
    pattern.isPrefixOf (s ++ t) = pattern.isPrefixOf s := by
  rw [Bool.eq_iff_iff, List.isPrefixOf_iff_prefix, List.isPrefixOf_iff_prefix]
  refine ⟨fun h => ?_, fun h => h.trans (List.prefix_append s t)⟩
  rcases List.prefix_or_prefix_of_prefix h (List.prefix_append s t) with hp | ⟨u, hu⟩
  · exact hp
  · cases u with
    | nil => rw [← hu, List.append_nil]
    | cons x u =>
      -- the last character of the text would be one that the pattern goes on after
      refine absurd ?_ (hlast (s.getLast hs) (List.getLast?_eq_some_getLast hs))
      rw [← hu, List.dropLast_append_of_ne_nil (List.cons_ne_nil x u)]
      exact List.mem_append_left _ (List.getLast_mem hs)

namespace Markup

/-! ### Marks -/

/-- The characters that pieces of a document end with. -/
def pieceEnds : List Char := [' ', '>', '"', '\n']

/-- The text ends as a piece of a document does, or is nothing. -/
def EndsPiece (s : Text) : Prop := ∀ c ∈ s.getLast?, c ∈ pieceEnds

theorem endsPiece_of_getLast? {s : Text} {c : Char} (h : s.getLast? = some c)
    (hc : c ∈ pieceEnds) : EndsPiece s := by
  intro d hd
  obtain rfl := Option.some.inj (h.symm.trans hd)
  exact hc

theorem EndsPiece.of_cons {s : Text} {c : Char} (h : EndsPiece (c :: s)) : EndsPiece s := by
  intro d hd
  rw [Option.mem_def] at hd
  exact h d (by rw [Option.mem_def, List.getLast?_cons, hd, Option.getD_some])

/-- **A mark**: it begins with a `<`, and goes on after no character that a piece of a document
ends with. -/
structure IsMark (mark : Text) : Prop where
  /-- It begins with a `<`. -/
  head : mark.head? = some '<'
  /-- It does not go on where a piece ends. -/
  dropLast : ∀ c ∈ pieceEnds, c ∉ mark.dropLast

namespace IsMark

variable {mark : Text} (hmark : IsMark mark)

include hmark in
theorem ne_nil : mark ≠ [] := by
  rintro rfl
  exact absurd hmark.head (by simp)

include hmark in
/-- **A mark does not lie across the end of a piece.** -/
theorem occurrences_append {s : Text} (hs : EndsPiece s) (t : Text) :
    occurrences mark (s ++ t) = occurrences mark s + occurrences mark t := by
  induction s with
  | nil => rw [List.nil_append, occurrences_nil hmark.ne_nil, Nat.zero_add]
  | cons c s ih =>
    have hlast : ∀ d ∈ (c :: s).getLast?, d ∉ mark.dropLast := fun d hd =>
      hmark.dropLast d (hs d hd)
    have hprefix := isPrefixOf_append (List.cons_ne_nil c s) hlast t
    rw [List.cons_append] at hprefix
    rw [List.cons_append, occurrences_cons, ih hs.of_cons, occurrences_cons, hprefix]
    omega

include hmark in
/-- **No mark begins in a text without `<`.** -/
theorem occurrences_append_of_not_mem {s : Text} (hs : '<' ∉ s) (t : Text) :
    occurrences mark (s ++ t) = occurrences mark t := by
  induction s with
  | nil => rfl
  | cons c s ih =>
    obtain ⟨u, rfl⟩ := List.head?_eq_some_iff.mp hmark.head
    have hc : '<' ≠ c := fun hc => hs (hc ▸ List.mem_cons_self ..)
    rw [List.cons_append, occurrences_cons, ih fun hmem => hs (List.mem_cons_of_mem c hmem)]
    simp [hc]

include hmark in
theorem occurrences_of_not_mem {s : Text} (hs : '<' ∉ s) : occurrences mark s = 0 := by
  have h := hmark.occurrences_append_of_not_mem hs []
  rwa [List.append_nil, occurrences_nil hmark.ne_nil] at h

/-! ### Elements and lines -/

variable {tag : Text}

/-- The number of marks in the tags of an element with a name. -/
def inTags (mark tag : Text) : Nat :=
  occurrences mark ('<' :: tag ++ " name=\"".toList) + occurrences mark (closingTag tag)

include hmark in
/-- **The marks of an element are those of its tags**, whatever its name and its value are. -/
theorem occurrences_leaf (tag name value : Text) :
    occurrences mark (leaf tag name value) = inTags mark tag := by
  have hwritten : leaf tag name value = ('<' :: tag ++ " name=\"".toList) ++
      (escapeAttribute name ++ ("\">".toList ++ (escapeText value ++ closingTag tag))) := by
    simp only [leaf, openingTag, List.append_assoc]
  have hopening : EndsPiece ('<' :: tag ++ " name=\"".toList) := by
    refine endsPiece_of_getLast? (c := '"') ?_ (by decide)
    rw [List.getLast?_append_of_ne_nil _ (by decide)]
    rfl
  have hend : '<' ∉ "\">".toList := by decide
  rw [hwritten, hmark.occurrences_append hopening,
    hmark.occurrences_append_of_not_mem (lt_not_mem_escapeAttribute name),
    hmark.occurrences_append_of_not_mem hend,
    hmark.occurrences_append_of_not_mem (lt_not_mem_escapeText value), inTags]

theorem endsPiece_leaf (tag name value : Text) : EndsPiece (leaf tag name value) := by
  refine endsPiece_of_getLast? (c := '>') ?_ (by decide)
  rw [leaf, closingTag, List.getLast?_append_of_ne_nil _ (by simp),
    List.getLast?_append_of_ne_nil _ (by decide)]
  rfl

/-- **What the mark counts in a line of an element**: the tags, and the mark of the comment if
there is one. -/
def inLine (mark tag : Text) (commented : Bool) : Nat :=
  (if commented then occurrences mark "<!-- ".toList else 0) + inTags mark tag

include hmark in
theorem occurrences_documentLine (htag : IsTag tag) (indent : Nat) (commented : Bool)
    (name value : Text) :
    occurrences mark (documentLine indent commented (leaf tag name value)) =
      inLine mark tag commented := by
  have htabs : '<' ∉ List.replicate indent '\t' := fun hmem =>
    absurd (List.eq_of_mem_replicate hmem) (by decide)
  rw [documentLine, List.append_assoc, hmark.occurrences_append_of_not_mem htabs]
  cases commented with
  | false =>
    have hbreak : occurrences mark ['\n'] = 0 := hmark.occurrences_of_not_mem (by decide)
    rw [if_neg (by decide), hmark.occurrences_append (endsPiece_leaf tag name value),
      hmark.occurrences_leaf, hbreak, inLine, if_neg (by decide), Nat.add_zero, Nat.zero_add]
  | true =>
    -- the comment holds the element with its dashes shortened
    have hwritten : commentOut (leaf tag name value) ++ ['\n'] =
        "<!-- ".toList ++ (leaf tag (squeezeDashes name) (squeezeDashes value) ++
          " -->\n".toList) := by
      rw [commentOut_leaf htag, commentBody]
      simp
    have hend : occurrences mark " -->\n".toList = 0 := hmark.occurrences_of_not_mem (by decide)
    have hopening : EndsPiece "<!-- ".toList :=
      endsPiece_of_getLast? (c := ' ') (by simp) (by decide)
    rw [if_pos rfl, hwritten, hmark.occurrences_append hopening,
      hmark.occurrences_append (endsPiece_leaf _ _ _), hmark.occurrences_leaf, hend, inLine,
      if_pos rfl, Nat.add_zero]

/-- A line ends with a line break. -/
theorem getLast?_documentLine (indent : Nat) (commented : Bool) (element : Text) :
    (documentLine indent commented element).getLast? = some '\n' := by
  rw [documentLine, List.getLast?_append_of_ne_nil _ (by simp)]
  rfl

include hmark in
/-- **The marks of pieces in a row are those of each.** -/
theorem occurrences_flatMap {α : Type} {f : α → Text} (hf : ∀ a, (f a).getLast? = some '\n')
    (l : List α) :
    occurrences mark (l.flatMap f) = (l.map fun a => occurrences mark (f a)).sum := by
  induction l with
  | nil => exact occurrences_nil hmark.ne_nil
  | cons a l ih =>
    have ha : EndsPiece (f a) := endsPiece_of_getLast? (hf a) (by decide)
    rw [List.flatMap_cons, hmark.occurrences_append ha, ih, List.map_cons, List.sum_cons]

/-- The marks of lines: those of the tags in each, and those of the comments. -/
theorem sum_inLine {α : Type} (mark tag : Text) (commented : α → Bool) (l : List α) :
    (l.map fun a => inLine mark tag (commented a)).sum =
      l.countP commented * occurrences mark "<!-- ".toList + l.length * inTags mark tag := by
  induction l with
  | nil => simp
  | cons a l ih =>
    rw [List.map_cons, List.sum_cons, ih, List.countP_cons, List.length_cons, inLine]
    cases commented a <;> grind

/-! ### Documents -/

/-- Pieces in a row end as the last of them does. -/
theorem endsPiece_flatMap {α : Type} {f : α → Text} (hf : ∀ a, (f a).getLast? = some '\n')
    (l : List α) : EndsPiece (l.flatMap f) := by
  rcases List.eq_nil_or_concat l with rfl | ⟨l, a, rfl⟩
  · simp [EndsPiece]
  · have hne : f a ≠ [] := by
      intro hnil
      simpa [hnil] using hf a
    refine endsPiece_of_getLast? (c := '\n') ?_ (by decide)
    rw [List.concat_eq_append, List.flatMap_append, List.flatMap_singleton,
      List.getLast?_append_of_ne_nil _ hne, hf]

/-- The pieces of a style. -/
theorem lines_eq (s : Style) :
    s.lines = "\t<style name=\"".toList ++ escapeAttribute s.name ++ "\">\n".toList ++
      s.items.flatMap (fun i => documentLine 2 i.commented i.element) ++ "\t</style>\n".toList :=
  rfl

/-- The number of marks in the lines that open and close a style. -/
def inStyleTags (mark : Text) : Nat :=
  occurrences mark "\t<style name=\"".toList + occurrences mark "\t</style>\n".toList

include hmark in
/-- **The marks of a style**: those of its tags, and those of its items. -/
theorem occurrences_lines (s : Style) :
    occurrences mark s.lines =
      inStyleTags mark + (s.items.map fun i => inLine mark "item".toList i.commented).sum := by
  have hitem : ∀ i : Item, (documentLine 2 i.commented i.element).getLast? = some '\n' :=
    fun i => getLast?_documentLine ..
  have hcount : ∀ i : Item, occurrences mark (documentLine 2 i.commented i.element) =
      inLine mark "item".toList i.commented := fun i =>
    hmark.occurrences_documentLine isTag_item 2 i.commented i.name i.value
  have hopening : EndsPiece "\t<style name=\"".toList :=
    endsPiece_of_getLast? (c := '"') (by simp) (by decide)
  have hend : '<' ∉ "\">\n".toList := by decide
  rw [lines_eq, List.append_assoc, List.append_assoc, List.append_assoc,
    hmark.occurrences_append hopening,
    hmark.occurrences_append_of_not_mem (lt_not_mem_escapeAttribute s.name),
    hmark.occurrences_append_of_not_mem hend,
    hmark.occurrences_append (endsPiece_flatMap hitem s.items), hmark.occurrences_flatMap hitem]
  simp only [hcount, inStyleTags]
  omega

theorem getLast?_lines (s : Style) : s.lines.getLast? = some '\n' := by
  have hlast : "\t</style>\n".toList.getLast? = some '\n' := by simp
  rw [lines_eq, List.getLast?_append, hlast, Option.some_or]

/-- The number of marks in the tags of resources. -/
def inResourcesTags (mark : Text) : Nat :=
  occurrences mark "<resources>\n".toList + occurrences mark "</resources>".toList

include hmark in
/-- The marks of resources: those of the tags, and those of the lines between them. -/
theorem occurrences_resourcesElement {α : Type} {f : α → Text}
    (hf : ∀ a, (f a).getLast? = some '\n') (l : List α) :
    occurrences mark (resourcesElement (l.flatMap f)) =
      inResourcesTags mark + (l.map fun a => occurrences mark (f a)).sum := by
  have hopening : EndsPiece "<resources>\n".toList :=
    endsPiece_of_getLast? (c := '\n') (by simp) (by decide)
  have hpieces : resourcesElement (l.flatMap f) =
      "<resources>\n".toList ++ l.flatMap f ++ "</resources>".toList := rfl
  rw [hpieces, List.append_assoc, hmark.occurrences_append hopening,
    hmark.occurrences_append (endsPiece_flatMap hf l), hmark.occurrences_flatMap hf,
    inResourcesTags]
  omega

/-- **What a mark counts in the pieces that are the same in every document.** -/
structure Tally where
  /-- The declaration in front of a document of colors. -/
  declaration : Nat
  /-- The tags of resources. -/
  resources : Nat
  /-- The tags of a style. -/
  style : Nat
  /-- The tags of an item. -/
  item : Nat
  /-- The tags of a color. -/
  color : Nat
  /-- The mark that opens a comment. -/
  comment : Nat
  deriving DecidableEq, Repr

/-- The counts of a mark. -/
def tally (mark : Text) : Tally where
  declaration := occurrences mark documentDeclaration
  resources := inResourcesTags mark
  style := inStyleTags mark
  item := inTags mark "item".toList
  color := inTags mark "color".toList
  comment := occurrences mark "<!-- ".toList

include hmark in
/-- **The marks of a document of styles.** -/
theorem occurrences_stylesDocument (styles : List Style) :
    occurrences mark (stylesDocument styles) =
      (tally mark).resources + styles.length * (tally mark).style +
        ((styles.flatMap Style.items).countP Item.commented * (tally mark).comment +
          (styles.flatMap Style.items).length * (tally mark).item) := by
  rw [stylesDocument, hmark.occurrences_resourcesElement getLast?_lines, Nat.add_assoc]
  refine congrArg (inResourcesTags mark + ·) ?_
  induction styles with
  | nil => simp
  | cons s styles ih =>
    rw [List.map_cons, List.sum_cons, ih, hmark.occurrences_lines, sum_inLine, List.flatMap_cons,
      List.countP_append, List.length_append, List.length_cons]
    simp only [tally]
    grind

include hmark in
/-- **The marks of a document of colors.** -/
theorem occurrences_colorsDocument (colors : List ColorResource) :
    occurrences mark (colorsDocument colors) =
      (tally mark).declaration + (tally mark).resources +
        (colors.countP ColorResource.commented * (tally mark).comment +
          colors.length * (tally mark).color) := by
  have hcolor : ∀ c : ColorResource, (documentLine 1 c.commented c.element).getLast? = some '\n' :=
    fun c => getLast?_documentLine ..
  have hcount : ∀ c : ColorResource, occurrences mark (documentLine 1 c.commented c.element) =
      inLine mark "color".toList c.commented := fun c =>
    hmark.occurrences_documentLine isTag_color 1 c.commented c.name c.value
  have hdeclaration : EndsPiece documentDeclaration :=
    endsPiece_of_getLast? (c := '\n') (by decide +kernel) (by decide)
  rw [colorsDocument, hmark.occurrences_append hdeclaration,
    hmark.occurrences_resourcesElement hcolor]
  simp only [hcount, sum_inLine, Nat.add_assoc, tally]

end IsMark

/-! ### The theorem -/

theorem isMark_style : IsMark "<style ".toList := ⟨rfl, by simp [pieceEnds]⟩

theorem isMark_item : IsMark "<item ".toList := ⟨rfl, by simp [pieceEnds]⟩

theorem isMark_color : IsMark "<color ".toList := ⟨rfl, by simp [pieceEnds]⟩

theorem isMark_comment : IsMark "<!--".toList := ⟨rfl, by simp [pieceEnds]⟩

open IsMark in
theorem tally_style : tally "<style ".toList = ⟨0, 0, 1, 0, 0, 0⟩ := by decide

open IsMark in
theorem tally_item : tally "<item ".toList = ⟨0, 0, 0, 1, 0, 0⟩ := by decide

open IsMark in
theorem tally_color : tally "<color ".toList = ⟨0, 0, 0, 0, 1, 0⟩ := by decide

open IsMark in
theorem tally_comment : tally "<!--".toList = ⟨0, 0, 0, 0, 0, 1⟩ := by decide

/-- **The statistics of a conversion count what its document holds.** Whatever the stylesheet and
the options are, the tag of a style begins in the document as often as there are styles, that of
an item as often as there are items, and that of a color as often as there are colors; a comment
begins as often as an item or a color is unresolved; and the size of the output is the number of
bytes of the document. -/
theorem occurrences_document_eq_statistics (options : Options) (source : Text) :
    let c := convert options source
    occurrences "<style ".toList c.document = c.statistics.styleCount ∧
      occurrences "<item ".toList c.document = c.statistics.itemCount ∧
      occurrences "<color ".toList c.document = c.statistics.colorCount ∧
      occurrences "<!--".toList c.document = c.statistics.unresolvedCount ∧
      (utf8Bytes c.document).size = c.statistics.outputSize := by
  intro c
  have hsize : (utf8Bytes c.document).size = c.statistics.outputSize := size_utf8Bytes _
  have hstyles : c.statistics.styleCount = c.styles.length := rfl
  have hitems : c.statistics.itemCount = (c.styles.flatMap Style.items).length := rfl
  have hcolors : c.statistics.colorCount = c.colors.length := rfl
  have hunresolved : c.statistics.unresolvedCount =
      (c.styles.flatMap Style.items).countP Item.commented +
        c.colors.countP ColorResource.commented := rfl
  cases hmode : options.mode with
  | styles =>
    have hnone : c.colors = [] := colors_gather_of_styles hmode _
    have hdocument : c.document = stylesDocument c.styles := by
      simp only [c, convert, Gathered.document, hmode]
    rw [hnone] at hcolors hunresolved
    rw [hsize, hdocument, isMark_style.occurrences_stylesDocument,
      isMark_item.occurrences_stylesDocument, isMark_color.occurrences_stylesDocument,
      isMark_comment.occurrences_stylesDocument, tally_style, tally_item, tally_color,
      tally_comment, hstyles, hitems, hcolors, hunresolved]
    simp
  | colors =>
    have hnone : c.styles = [] := styles_gather_of_colors hmode _
    have hdocument : c.document = colorsDocument c.colors := by
      simp only [c, convert, Gathered.document, hmode]
    rw [hnone] at hstyles hitems hunresolved
    rw [hsize, hdocument, isMark_style.occurrences_colorsDocument,
      isMark_item.occurrences_colorsDocument, isMark_color.occurrences_colorsDocument,
      isMark_comment.occurrences_colorsDocument, tally_style, tally_item, tally_color,
      tally_comment, hstyles, hitems, hcolors, hunresolved]
    simp

end Markup

end CssResources
