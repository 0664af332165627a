import CssResources.Text.Basic

/-!
# Reading a document back

A document is read one character after the other, by a machine that knows nothing of how
documents are written here. It keeps where it is in the text (`CssResources.Markup.Place`)
and the elements that are open (`CssResources.Markup.Frame`), the innermost at hand. An
element that is closed becomes a node of the element around it.

| place | what ends it |
|---|---|
| content | `<` |
| an opening tag: its name, its attributes, their values | a blank, `>`, `=`, a double quote |
| a closing tag | `>` |
| a comment | two dashes, after which a `>` must come |
| a declaration | a question mark and `>` |

**The machine is strict.** It stops without a result at a name with a wrong character, at a
`<` in the value of an attribute, at two dashes inside a comment, at an `&` that begins no
entity, and at a closing tag that is not that of the innermost element. So a document that is
read is read in the one way that any reader must read it.
-/

namespace CssResources

namespace Markup

/-! ### Nodes -/

/-- **What an element holds beside text**: elements and comments. -/
inductive Node where
  /-- An element: its tag, its attributes, its text, and its nodes in order. -/
  | element (tag : Text) (attributes : List (Text × Text)) (text : Text) (nodes : List Node)
  /-- A comment, and what stands between its marks. -/
  | comment (body : Text)

/-- **The text that stands for itself or in entities**, unless an `&` begins no entity. -/
def decode? : Text → Option Text
  | [] => some []
  | '&' :: 'a' :: 'm' :: 'p' :: ';' :: t => (decode? t).map ('&' :: ·)
  | '&' :: 'l' :: 't' :: ';' :: t => (decode? t).map ('<' :: ·)
  | '&' :: 'g' :: 't' :: ';' :: t => (decode? t).map ('>' :: ·)
  | '&' :: 'q' :: 'u' :: 'o' :: 't' :: ';' :: t => (decode? t).map ('"' :: ·)
  | '&' :: 'a' :: 'p' :: 'o' :: 's' :: ';' :: t => (decode? t).map ('\'' :: ·)
  | '&' :: _ => none
  | c :: t => (decode? t).map (c :: ·)

/-! ### The machine -/

/-- An opening tag: the name of the element, and its attributes. -/
structure Tag where
  /-- The name of the element. -/
  name : Text
  /-- The attributes in order, with their values decoded. -/
  attributes : List (Text × Text) := []

/-- **An element that is open**: its tag, and what it holds so far. -/
structure Frame where
  /-- The opening tag. -/
  tag : Tag
  /-- The text so far, as written. -/
  text : Text := []
  /-- The nodes so far. -/
  nodes : List Node := []

/-- **A place in the text of a document.** -/
inductive Place where
  /-- Among the text and the nodes of an element. -/
  | content
  /-- After a `<`. -/
  | mark
  /-- After `<!`. -/
  | bang
  /-- After `<!-`. -/
  | bangDash
  /-- In a comment, after this body. -/
  | comment (body : Text)
  /-- In a comment, after this body and a dash. -/
  | dash (body : Text)
  /-- In a comment, after this body and two dashes. -/
  | dashes (body : Text)
  /-- In a declaration. -/
  | declaration
  /-- In a declaration, after a question mark. -/
  | question
  /-- In a closing tag, after this much of its name. -/
  | closing (name : Text)
  /-- In an opening tag, in its name. -/
  | opening (tag : Tag)
  /-- In an opening tag, before an attribute or the end. -/
  | between (tag : Tag)
  /-- In an opening tag, after this much of an attribute's name. -/
  | attribute (tag : Tag) (name : Text)
  /-- In an opening tag, after an attribute's name and the equals sign. -/
  | equals (tag : Tag) (name : Text)
  /-- In an opening tag, after this much of an attribute's value. -/
  | value (tag : Tag) (name value : Text)
  /-- In an opening tag, after an attribute's value. -/
  | valued (tag : Tag)

/-- **What is known after a part of a document.** -/
structure Reader where
  /-- The place in the text. -/
  place : Place
  /-- The innermost element that is open. -/
  frame : Frame
  /-- The elements around it, from the inside. -/
  outer : List Frame

/-- A character of a name of an element or an attribute. -/
def isNameChar (c : Char) : Bool := c.isAlphanum || c == '_' || c == '-' || c == '.' || c == ':'

/-- An element without text and nodes is open, with nothing around it: the document. -/
def start : Reader := ⟨.content, { tag := { name := [] } }, []⟩

namespace Reader

/-- The reader at another place. -/
def goTo (r : Reader) (place : Place) : Reader := { r with place }

/-- The reader with one more character of the text of the innermost element. -/
def keep (r : Reader) (c : Char) : Reader :=
  { r with frame := { r.frame with text := r.frame.text ++ [c] } }

/-- The reader with one more node of the innermost element, in its content. -/
def add (r : Reader) (node : Node) : Reader :=
  { r with place := .content, frame := { r.frame with nodes := r.frame.nodes ++ [node] } }

/-- The reader after an opening tag. -/
def push (r : Reader) (tag : Tag) : Reader := ⟨.content, { tag }, r.frame :: r.outer⟩

/-- **The reader after a closing tag**: the innermost element is a node of the one around it. -/
def close? (r : Reader) (name : Text) : Option Reader :=
  match r.outer with
  | [] => none
  | frame :: outer =>
    if r.frame.tag.name = name then
      (decode? r.frame.text).map fun text =>
        add ⟨.content, frame, outer⟩ (.element name r.frame.tag.attributes text r.frame.nodes)
    else none

/-- **One character more.** -/
def step (r : Reader) (c : Char) : Option Reader :=
  match r.place with
  | .content => some (if c = '<' then r.goTo .mark else r.keep c)
  | .mark =>
    if c = '!' then some (r.goTo .bang)
    else if c = '?' then some (r.goTo .declaration)
    else if c = '/' then some (r.goTo (.closing []))
    else if isNameChar c then some (r.goTo (.opening { name := [c] }))
    else none
  | .bang => if c = '-' then some (r.goTo .bangDash) else none
  | .bangDash => if c = '-' then some (r.goTo (.comment [])) else none
  | .comment body => some (r.goTo (if c = '-' then .dash body else .comment (body ++ [c])))
  | .dash body => some (r.goTo (if c = '-' then .dashes body else .comment (body ++ ['-', c])))
  | .dashes body => if c = '>' then some (r.add (.comment body)) else none
  | .declaration => some (r.goTo (if c = '?' then .question else .declaration))
  | .question =>
    some (r.goTo (if c = '>' then .content else if c = '?' then .question else .declaration))
  | .closing name =>
    if c = '>' then r.close? name
    else if isNameChar c then some (r.goTo (.closing (name ++ [c])))
    else none
  | .opening tag =>
    if c = '>' then some (r.push tag)
    else if isBlank c then some (r.goTo (.between tag))
    else if isNameChar c then some (r.goTo (.opening { tag with name := tag.name ++ [c] }))
    else none
  | .between tag =>
    if c = '>' then some (r.push tag)
    else if isBlank c then some r
    else if isNameChar c then some (r.goTo (.attribute tag [c]))
    else none
  | .attribute tag name =>
    if c = '=' then some (r.goTo (.equals tag name))
    else if isNameChar c then some (r.goTo (.attribute tag (name ++ [c])))
    else none
  | .equals tag name => if c = '"' then some (r.goTo (.value tag name [])) else none
  | .value tag name value =>
    if c = '"' then
      (decode? value).map fun v =>
        r.goTo (.valued { tag with attributes := tag.attributes ++ [(name, v)] })
    else if c = '<' then none
    else some (r.goTo (.value tag name (value ++ [c])))
  | .valued tag =>
    if c = '>' then some (r.push tag)
    else if isBlank c then some (r.goTo (.between tag))
    else none

/-- **The reader after a text.** -/
def run : Reader → Text → Option Reader
  | r, [] => some r
  | r, c :: t => (r.step c).bind fun r' => run r' t

@[simp] theorem run_nil (r : Reader) : r.run [] = some r := rfl

theorem run_cons (r : Reader) (c : Char) (t : Text) :
    r.run (c :: t) = (r.step c).bind fun r' => r'.run t := rfl

/-- **Two texts are read one after the other.** -/
theorem run_append (r : Reader) (s t : Text) :
    r.run (s ++ t) = (r.run s).bind fun r' => r'.run t := by
  induction s generalizing r with
  | nil => rfl
  | cons c s ih =>
    rw [List.cons_append, run_cons, run_cons, Option.bind_assoc]
    exact congrArg _ (funext fun r' => ih r')

end Reader

/-- **The nodes of a document**, if it can be read: every element is closed, and there is no
text outside of elements. -/
def nodes? (document : Text) : Option (List Node) :=
  match start.run document with
  | some ⟨.content, frame, []⟩ => if isAllBlank frame.text then some frame.nodes else none
  | _ => none

/-- A mark that is not written as an entity is read as a mark. -/
example : nodes? "<a n=\"x\">1</a><!-- <b> --> <a n=\"y\"></a>".toList =
    some [.element ['a'] [(['n'], ['x'])] ['1'] [], .comment " <b> ".toList,
      .element ['a'] [(['n'], ['y'])] [] []] := by
  rfl

end Markup

end CssResources
