import CssResources.Resource.Basic

/-!
# Resource documents

The document of a list of styles or colors. Names stand in attributes and values in
element text, so the characters that mark up a document are written as entities.

**A comment cannot hold two dashes in a row**, so a commented element is written with
each of its runs of dashes shortened to one. It is escaped before, so it holds no
other mark that could end the comment.
-/

namespace CssResources

/-! ### Escaping -/

/-- The text with `entity` in place of every `c`. -/
def substitute (c : Char) (entity t : Text) : Text :=
  t.flatMap fun x => if x = c then entity else [x]

/-- **Element text**: `&`, `<` and `>` are written as entities. The ampersands come first,
as the other entities begin with one. -/
def escapeText (t : Text) : Text :=
  substitute '>' "&gt;".toList (substitute '<' "&lt;".toList (substitute '&' "&amp;".toList t))

/-- **An attribute's value**: like element text, and double quotes as entities too. -/
def escapeAttribute (t : Text) : Text := substitute '"' "&quot;".toList (escapeText t)

@[simp] theorem substitute_nil (c : Char) (entity : Text) : substitute c entity [] = [] := rfl

@[simp] theorem substitute_cons (c x : Char) (entity t : Text) :
    substitute c entity (x :: t) = (if x = c then entity else [x]) ++ substitute c entity t := rfl

@[simp] theorem substitute_append (c : Char) (entity s t : Text) :
    substitute c entity (s ++ t) = substitute c entity s ++ substitute c entity t :=
  List.flatMap_append

/-! ### Comments -/

/-- The text holds two dashes in a row. -/
def hasDashPair : Text → Bool
  | '-' :: '-' :: _ => true
  | _ :: t => hasDashPair t
  | [] => false

/-- The text with each pair of dashes, found from left to right, written as one. -/
def halveDashes : Text → Text
  | '-' :: '-' :: t => '-' :: halveDashes t
  | c :: t => c :: halveDashes t
  | [] => []

@[simp] theorem hasDashPair_nil : hasDashPair [] = false := rfl

@[simp] theorem halveDashes_nil : halveDashes [] = [] := rfl

/-- Halving its dashes does not make a text longer. -/
theorem length_halveDashes_le (t : Text) : (halveDashes t).length ≤ t.length := by
  fun_induction halveDashes t with
  | case1 t ih => simp only [List.length_cons]; omega
  | case2 c t _ ih => simpa using ih
  | case3 => simp

/-- Halving the dashes of a text with a pair of them makes it shorter. -/
theorem length_halveDashes_lt {t : Text} (h : hasDashPair t = true) :
    (halveDashes t).length < t.length := by
  fun_induction halveDashes t with
  | case1 t ih =>
    have := length_halveDashes_le t
    simp only [List.length_cons]
    omega
  | case2 c t hne ih =>
    rw [hasDashPair] at h
    · simpa using ih h
    · exact hne
  | case3 => simp at h

/-- **The text with each run of dashes shortened to one**: its dashes are halved until no
two of them are in a row. -/
def shortenDashes (t : Text) : Text :=
  if _h : hasDashPair t then shortenDashes (halveDashes t) else t
termination_by t.length
decreasing_by exact length_halveDashes_lt _h

/-- **A text inside a comment.** The comment ends with a blank and its own mark, so the
dashes and blanks at the end of the text are left out. -/
def commentOut (text : Text) : Text :=
  "<!-- ".toList ++ trimEnd (trimEndOf '-' (shortenDashes text)) ++ " -->".toList

/-! ### Documents -/

/-- A line of a document: an element, or the comment that holds it, after so many tabs. -/
def documentLine (indent : Nat) (commented : Bool) (element : Text) : Text :=
  List.replicate indent '\t' ++ (if commented then commentOut element else element) ++ ['\n']

/-- The element of an item. -/
def Item.element (i : Item) : Text :=
  "<item name=\"".toList ++ escapeAttribute i.name ++ "\">".toList ++ escapeText i.value
    ++ "</item>".toList

/-- The lines of a style: its tags, and its items between them. -/
def Style.lines (s : Style) : Text :=
  "\t<style name=\"".toList ++ escapeAttribute s.name ++ "\">\n".toList
    ++ s.items.flatMap (fun i => documentLine 2 i.commented i.element)
    ++ "\t</style>\n".toList

/-- The element of a color. -/
def ColorResource.element (c : ColorResource) : Text :=
  "<color name=\"".toList ++ escapeAttribute c.name ++ "\">".toList ++ escapeText c.value
    ++ "</color>".toList

/-- The lines of resources between the tags that open and close them. -/
def resourcesElement (lines : Text) : Text :=
  "<resources>\n".toList ++ lines ++ "</resources>".toList

/-- **The document of styles.** -/
def stylesDocument (styles : List Style) : Text := resourcesElement (styles.flatMap Style.lines)

/-- The declaration that opens a document of colors. -/
def documentDeclaration : Text := "<?xml version=\"1.0\" encoding=\"utf-8\"?>\n".toList

/-- **The document of colors.** -/
def colorsDocument (colors : List ColorResource) : Text :=
  documentDeclaration
    ++ resourcesElement (colors.flatMap fun c => documentLine 1 c.commented c.element)

end CssResources
