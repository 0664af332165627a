import CssResources.Proofs.Markup.Content

/-!
# Documents are read back as what was written

A document of styles or colors, given to a reader that knows only of markup
(`CssResources.Markup.nodes?`), is one element `resources` with one node for each style or
color, and a style is an element with one node for each of its items. The node of an item or
a color has its name and its value to the letter, whatever characters they are made of – or
it is a comment whose body has no two dashes in a row, and which holds the element all the
same, **with each run of dashes shortened to one** (`CssResources.Markup.Node.StandsFor`).

So nothing in a name or a value opens or closes an element or a comment: no node is more or
less than what was written, and none is at another place.
-/

namespace CssResources

namespace Markup

/-! ### What a document says -/

/-- **The node stands for a name and a value**: it is the element with this name and this
value; or a comment without two dashes in a row, which holds the element of the name and the
value with their runs of dashes shortened. -/
def Node.StandsFor (tag name value : Text) (commented : Bool) (node : Node) : Prop :=
  match commented with
  | false => node = .element tag [("name".toList, name)] value []
  | true => ∃ body, node = .comment body ∧ hasDashPair body = false ∧
      nodes? body =
        some [.element tag [("name".toList, squeezeDashes name)] (squeezeDashes value) []]

/-- The node stands for an item. -/
def StandsForItem (i : Item) (node : Node) : Prop :=
  node.StandsFor "item".toList i.name i.value i.commented

/-- **The node stands for a style**: the element with its name, and in it a node for each of
its items, in order. -/
def StandsForStyle (s : Style) (node : Node) : Prop :=
  ∃ text nodes, node = .element "style".toList [("name".toList, s.name)] text nodes ∧
    isAllBlank text = true ∧ List.Forall₂ StandsForItem s.items nodes

/-- The node stands for a color. -/
def StandsForColor (c : ColorResource) (node : Node) : Prop :=
  node.StandsFor "color".toList c.name c.value c.commented

/-- **The document is one element of resources**, in which a node stands for each member of
a list, in order. -/
def IsResources {α : Type} (StandsFor : α → Node → Prop) (l : List α) (document : Text) : Prop :=
  ∃ text nodes, nodes? document = some [.element "resources".toList [] text nodes] ∧
    isAllBlank text = true ∧ List.Forall₂ StandsFor l nodes

/-! ### Elements and comments -/

/-- The element of a name and a value. -/
def leaf (tag name value : Text) : Text :=
  openingTag tag name ++ escapeText value ++ closingTag tag

variable {tag : Text}

/-- **An element of a name and a value is read as this element.** -/
theorem contains_leaf (htag : IsTag tag) (name value : Text) :
    Contains (leaf tag name value) [] [.element tag [("name".toList, name)] value []] :=
  Contains.element (opens_openingTag htag name)
    (contains_of_lt_not_mem (lt_not_mem_escapeText value)) (decode?_escapeText value) htag

/-- **To shorten the dashes of an element is to shorten those of its name and its value.** -/
theorem squeezeDashes_leaf (htag : IsTag tag) (name value : Text) :
    squeezeDashes (leaf tag name value) = leaf tag (squeezeDashes name) (squeezeDashes value) := by
  have hopening : '-' ∉ '<' :: tag ++ " name=\"".toList := by
    rw [List.cons_append, List.mem_cons, List.mem_append]
    rintro (h | h | h)
    · exact absurd h (by decide)
    · exact htag.dash h
    · exact absurd h (by decide)
  have hclosing : '-' ∉ closingTag tag := by
    rw [closingTag, List.mem_append, List.mem_append]
    rintro ((h | h) | h)
    · exact absurd h (by decide)
    · exact htag.dash h
    · exact absurd h (by decide)
  have hend : '-' ∉ "\">".toList := by decide
  have hpieces : ∀ name value : Text, leaf tag name value =
      ('<' :: tag ++ " name=\"".toList) ++ (escapeAttribute name ++
        ("\">".toList ++ (escapeText value ++ (closingTag tag ++ [])))) := by
    intro name value
    simp only [leaf, openingTag, List.append_assoc, List.append_nil]
  calc squeezeDashes (leaf tag name value)
      = ('<' :: tag ++ " name=\"".toList) ++ squeezeDashes (escapeAttribute name ++
          ("\">".toList ++ (escapeText value ++ (closingTag tag ++ [])))) := by
        rw [hpieces, squeezeDashes_append_of_not_mem hopening]
    _ = ('<' :: tag ++ " name=\"".toList) ++ (squeezeDashes (escapeAttribute name) ++
          ("\">".toList ++ (squeezeDashes (escapeText value) ++ (closingTag tag ++ [])))) := by
        rw [squeezeDashes_append_mark hend (by decide),
          squeezeDashes_append_mark hclosing (by simp [closingTag]), squeezeDashes_nil]
    _ = leaf tag (squeezeDashes name) (squeezeDashes value) := by
        rw [hpieces, squeezeDashes_escapeAttribute, squeezeDashes_escapeText]

/-- The body of the comment that holds the element of a name and a value. -/
def commentBody (tag name value : Text) : Text :=
  [' '] ++ leaf tag (squeezeDashes name) (squeezeDashes value) ++ [' ']

/-- An element ends with a mark, so a comment leaves out nothing at its end. -/
theorem commentOut_leaf (htag : IsTag tag) (name value : Text) :
    commentOut (leaf tag name value) =
      "<!--".toList ++ commentBody tag name value ++ "-->".toList := by
  have hmark : ∀ t : Text, trimEnd (trimEndOf '-' (t ++ ['>'])) = t ++ ['>'] := by
    intro t
    have hdashes : trimEndOf '-' (t ++ ['>']) = t ++ ['>'] := by simp [trimEndOf]
    have hblank : isBlank '>' = false := rfl
    rw [hdashes]
    simp [trimEnd, hblank]
  have hleaf : ∀ name value : Text, leaf tag name value =
      (openingTag tag name ++ escapeText value ++ "</".toList ++ tag) ++ ['>'] := by
    intro name value
    simp [leaf, closingTag]
  show "<!-- ".toList ++ trimEnd (trimEndOf '-' (shortenDashes (leaf tag name value))) ++
    " -->".toList = _
  rw [shortenDashes_eq_squeezeDashes, squeezeDashes_leaf htag, hleaf, hmark, ← hleaf]
  simp [commentBody]

/-- **The body of a comment has no two dashes in a row**, wherever the name and the value have
theirs. -/
theorem hasDashPair_commentBody (htag : IsTag tag) (name value : Text) :
    hasDashPair (commentBody tag name value) = false := by
  -- it is what the pass makes of the element between its blanks
  have hbody : commentBody tag name value =
      squeezeDashes ([' '] ++ (leaf tag name value ++ [' '])) := by
    rw [squeezeDashes_append_of_not_mem (by decide), squeezeDashes_append (Or.inr (by decide)),
      squeezeDashes_leaf htag, commentBody, List.append_assoc]
    rfl
  rw [hbody, hasDashPair_squeezeDashes]

/-- **The body of a comment is read as the element**, with its dashes shortened. -/
theorem nodes?_commentBody (htag : IsTag tag) (name value : Text) :
    nodes? (commentBody tag name value) =
      some [.element tag [("name".toList, squeezeDashes name)] (squeezeDashes value) []] := by
  have hblank : Contains [' '] [' '] [] := contains_of_lt_not_mem (by decide)
  have hbody := (hblank.append
    (contains_leaf htag (squeezeDashes name) (squeezeDashes value))).append hblank
  exact hbody.nodes?_eq rfl

/-- The comment of an element is read as this comment. -/
theorem contains_commentOut_leaf (htag : IsTag tag) (name value : Text) :
    Contains (commentOut (leaf tag name value)) [] [.comment (commentBody tag name value)] := by
  have hlast : (commentBody tag name value).getLast? ≠ some '-' := by
    rw [commentBody, List.getLast?_concat]
    decide
  rw [commentOut_leaf htag]
  exact contains_comment (hasDashPair_commentBody htag name value) hlast

/-! ### Lines -/

/-- A line adds what is written on it, and blanks. -/
theorem contains_line (indent : Nat) {written : Text} {node : Node}
    (h : Contains written [] [node]) :
    Contains (List.replicate indent '\t' ++ written ++ ['\n'])
      (List.replicate indent '\t' ++ ['\n']) [node] := by
  have hmark : '<' ∉ List.replicate indent '\t' := by
    intro hmem
    exact absurd (List.eq_of_mem_replicate hmem) (by decide)
  have htabs : Contains _ _ [] := contains_of_lt_not_mem hmark
  have hbreak : Contains ['\n'] ['\n'] [] := contains_of_lt_not_mem (by decide)
  have hline := (htabs.append h).append hbreak
  rwa [List.append_nil, List.nil_append, List.append_nil] at hline

/-- **A line adds blanks and a node that stands for its name and its value.** -/
theorem exists_contains_documentLine (htag : IsTag tag) (indent : Nat) (commented : Bool)
    (name value : Text) :
    ∃ text node, isAllBlank text = true ∧
      Contains (documentLine indent commented (leaf tag name value)) text [node] ∧
        node.StandsFor tag name value commented := by
  have hblank : isAllBlank (List.replicate indent '\t' ++ ['\n']) = true := by
    rw [isAllBlank, List.all_append, Bool.and_eq_true, List.all_replicate]
    simp [isBlank]
  cases commented with
  | false => exact ⟨_, _, hblank, contains_line indent (contains_leaf htag name value), rfl⟩
  | true =>
    refine ⟨_, _, hblank, contains_line indent (contains_commentOut_leaf htag name value), ?_⟩
    exact ⟨_, rfl, hasDashPair_commentBody htag name value,
      nodes?_commentBody htag name value⟩

/-! ### The documents -/

theorem isTag_resources : IsTag "resources".toList := ⟨by decide, by decide, by decide⟩

theorem isTag_style : IsTag "style".toList := ⟨by decide, by decide, by decide⟩

theorem isTag_item : IsTag "item".toList := ⟨by decide, by decide, by decide⟩

theorem isTag_color : IsTag "color".toList := ⟨by decide, by decide, by decide⟩

/-- **The lines of a style add blanks and a node that stands for it.** -/
theorem exists_contains_lines (s : Style) :
    ∃ text node, isAllBlank text = true ∧ Contains s.lines text [node] ∧ StandsForStyle s node := by
  have hitem : ∀ i : Item, ∃ text node, isAllBlank text = true ∧
      Contains (documentLine 2 i.commented i.element) text [node] ∧ StandsForItem i node := by
    intro i
    exact exists_contains_documentLine isTag_item 2 i.commented i.name i.value
  -- the lines of the items stand between a line break and the tab before the closing tag
  obtain ⟨text, nodes, htext, hitems, hnodes⟩ := exists_contains_flatMap hitem s.items
  have hbreak : Contains ['\n'] ['\n'] [] := contains_of_lt_not_mem (by decide)
  have htab : Contains ['\t'] ['\t'] [] := contains_of_lt_not_mem (by decide)
  have hinside := (hbreak.append hitems).append htab
  rw [List.nil_append, List.append_nil] at hinside
  have hblank : isAllBlank (['\n'] ++ text ++ ['\t']) = true := by
    rw [isAllBlank, List.all_append, List.all_append, ← isAllBlank, ← isAllBlank, htext]
    rfl
  have helement := hinside.element (opens_openingTag isTag_style s.name)
    (decode?_of_isAllBlank hblank) isTag_style
  have hlines := (htab.append helement).append hbreak
  have hwritten : s.lines = ['\t'] ++ (openingTag "style".toList s.name ++
      (['\n'] ++ s.items.flatMap (fun i => documentLine 2 i.commented i.element) ++ ['\t']) ++
        closingTag "style".toList) ++ ['\n'] := by
    have hpieces : s.lines = ['\t'] ++ ('<' :: "style".toList ++ " name=\"".toList) ++
        escapeAttribute s.name ++ ("\">".toList ++ ['\n']) ++
        s.items.flatMap (fun i => documentLine 2 i.commented i.element) ++
        (['\t'] ++ closingTag "style".toList ++ ['\n']) := rfl
    rw [hpieces, openingTag]
    simp only [List.append_assoc]
  rw [← hwritten] at hlines
  exact ⟨_, _, rfl, hlines, _, _, rfl, hblank, hnodes⟩

/-- Lines that add blanks and nodes are, between the tags of resources, the element with
these nodes. -/
theorem isResources_of_contains {α : Type} {StandsFor : α → Node → Prop} {l : List α}
    {lead lines blanks text : Text} {nodes : List Node} (hlead : Contains lead blanks [])
    (hblanks : isAllBlank blanks = true) (hlines : Contains lines text nodes)
    (htext : isAllBlank text = true) (hnodes : List.Forall₂ StandsFor l nodes) :
    IsResources StandsFor l (lead ++ resourcesElement lines) := by
  have hopens : Opens "<resources>".toList { name := "resources".toList } := fun _ _ => rfl
  have hbreak : Contains ['\n'] ['\n'] [] := contains_of_lt_not_mem (by decide)
  have hblank : isAllBlank (['\n'] ++ text) = true := htext
  have helement := (hbreak.append hlines).element hopens (decode?_of_isAllBlank hblank)
    isTag_resources
  have hwritten : resourcesElement lines =
      "<resources>".toList ++ (['\n'] ++ lines) ++ closingTag "resources".toList := by
    have hpieces : resourcesElement lines =
        ("<resources>".toList ++ ['\n']) ++ lines ++ closingTag "resources".toList := rfl
    rw [hpieces]
    simp only [List.append_assoc]
  refine ⟨_, nodes, ?_, hblank, hnodes⟩
  rw [hwritten, (hlead.append helement).nodes?_eq (by rwa [List.append_nil])]
  rfl

/-- **Documents are read back as what was written.** Whatever the names and the values are, a
document of styles is read as the styles with their items, and a document of colors as the
colors. -/
theorem documents_read_back (styles : List Style) (colors : List ColorResource) :
    IsResources StandsForStyle styles (stylesDocument styles) ∧
      IsResources StandsForColor colors (colorsDocument colors) := by
  constructor
  · obtain ⟨text, nodes, htext, hlines, hnodes⟩ :=
      exists_contains_flatMap exists_contains_lines styles
    have hnothing : Contains [] [] [] := contains_of_lt_not_mem (by decide)
    exact isResources_of_contains hnothing rfl hlines htext hnodes
  · have hcolor : ∀ c : ColorResource, ∃ text node, isAllBlank text = true ∧
        Contains (documentLine 1 c.commented c.element) text [node] ∧ StandsForColor c node := by
      intro c
      exact exists_contains_documentLine isTag_color 1 c.commented c.name c.value
    obtain ⟨text, nodes, htext, hlines, hnodes⟩ := exists_contains_flatMap hcolor colors
    have hdeclaration : Contains documentDeclaration ['\n'] [] := by
      intro frame outer
      rw [List.append_nil]
      rfl
    exact isResources_of_contains hdeclaration rfl hlines htext hnodes

/-- A name that would close its attribute, its tag and its element stays a name. -/
example : nodes? (stylesDocument [{ name := "a\"></style>".toList, items := [] }]) =
    some [.element "resources".toList [] "\n\t\n".toList
      [.element "style".toList [("name".toList, "a\"></style>".toList)] "\n\t".toList []]] := by
  rfl

end Markup

end CssResources
