import CssResources.Proofs.Markup.Dashes
import CssResources.Proofs.Markup.Entity
import CssResources.Proofs.Markup.Reading
import Mathlib.Data.List.Forall2

/-!
# Pieces of a document

A document is put together from pieces, and each piece is read without regard to what is
around it: **from content to content, whatever element is open**
(`CssResources.Markup.Contains`). A piece adds to the text and to the nodes of this element,
and pieces one after the other add one after the other (`CssResources.Markup.Contains.append`).

| piece | adds |
|---|---|
| a text without `<` | itself (`CssResources.Markup.contains_of_lt_not_mem`) |
| a piece between the tags of an element | the element (`CssResources.Markup.Contains.element`) |
| a body between the marks of a comment | the comment (`CssResources.Markup.contains_comment`) |

A document whose pieces add blanks to its text is read as the nodes that they add
(`CssResources.Markup.Contains.nodes?_eq`).
-/

namespace CssResources

namespace Markup

variable {frame : Frame} {outer : List Frame}

/-! ### Runs of characters -/

namespace Reader

/-- **Characters are gathered one by one**: if a reader that has gathered a text goes on with
each character of a kind, it goes on with every text of such characters. -/
theorem run_gather {gathered : Text → Reader} {p : Char → Prop}
    (h : ∀ t c, p c → (gathered t).step c = some (gathered (t ++ [c]))) {t : Text}
    (ht : ∀ c ∈ t, p c) (s : Text) : (gathered s).run t = some (gathered (s ++ t)) := by
  induction t generalizing s with
  | nil => rw [run_nil, List.append_nil]
  | cons c t ih =>
    have hc : p c := ht c (List.mem_cons_self ..)
    rw [run_cons, h s c hc, Option.bind_some, ih (fun d hd => ht d (List.mem_cons_of_mem c hd)),
      List.append_assoc, List.singleton_append]

/-- Content goes on up to a `<`. -/
theorem run_content {t : Text} (h : '<' ∉ t) :
    run ⟨.content, frame, outer⟩ t =
      some ⟨.content, { frame with text := frame.text ++ t }, outer⟩ := by
  have hne : ∀ c ∈ t, c ≠ '<' := fun c hc hlt => h (hlt ▸ hc)
  have hstep : ∀ s c, c ≠ '<' →
      step ⟨.content, { frame with text := frame.text ++ s }, outer⟩ c =
        some ⟨.content, { frame with text := frame.text ++ (s ++ [c]) }, outer⟩ := by
    intro s c hc
    simp [step, keep, hc]
  simpa using run_gather hstep hne []

/-- **The value of an attribute goes on up to its double quote.** -/
theorem run_value {tag : Tag} {name t : Text} (hquote : '"' ∉ t) (hlt : '<' ∉ t) :
    run ⟨.value tag name [], frame, outer⟩ t = some ⟨.value tag name t, frame, outer⟩ := by
  have hne : ∀ c ∈ t, c ≠ '"' ∧ c ≠ '<' := by
    intro c hc
    constructor
    · rintro rfl
      exact hquote hc
    · rintro rfl
      exact hlt hc
  have hstep : ∀ s c, c ≠ '"' ∧ c ≠ '<' → step ⟨.value tag name s, frame, outer⟩ c =
      some ⟨.value tag name (s ++ [c]), frame, outer⟩ := by
    rintro s c ⟨hq, hl⟩
    simp [step, goTo, hq, hl]
  exact run_gather hstep hne []

/-- A character of a name is no mark and no blank. -/
theorem ne_of_isNameChar {c : Char} (h : isNameChar c = true) :
    c ≠ '!' ∧ c ≠ '?' ∧ c ≠ '/' ∧ c ≠ '>' ∧ isBlank c = false := by
  refine ⟨?_, ?_, ?_, ?_, ?_⟩
  · rintro rfl
    exact absurd h (by decide)
  · rintro rfl
    exact absurd h (by decide)
  · rintro rfl
    exact absurd h (by decide)
  · rintro rfl
    exact absurd h (by decide)
  · simp only [isNameChar, Bool.or_eq_true, beq_iff_eq] at h
    rcases h with (((halnum | rfl) | rfl) | rfl) | rfl
    · exact isBlank_of_isAlphanum halnum
    all_goals rfl

/-- The name of a closing tag goes on up to its `>`. -/
theorem run_closing {t : Text} (h : ∀ c ∈ t, isNameChar c = true) :
    run ⟨.closing [], frame, outer⟩ t = some ⟨.closing t, frame, outer⟩ := by
  have hstep : ∀ s c, isNameChar c = true →
      step ⟨.closing s, frame, outer⟩ c = some ⟨.closing (s ++ [c]), frame, outer⟩ := by
    intro s c hc
    obtain ⟨-, -, -, hgt, -⟩ := ne_of_isNameChar hc
    simp [step, goTo, hgt, hc]
  exact run_gather hstep h []

/-- The name of an opening tag goes on up to a blank or its `>`. -/
theorem run_opening {t : Text} (h : ∀ c ∈ t, isNameChar c = true) (s : Text) :
    run ⟨.opening { name := s }, frame, outer⟩ t =
      some ⟨.opening { name := s ++ t }, frame, outer⟩ := by
  have hstep : ∀ s c, isNameChar c = true → step ⟨.opening { name := s }, frame, outer⟩ c =
      some ⟨.opening { name := s ++ [c] }, frame, outer⟩ := by
    intro s c hc
    obtain ⟨-, -, -, hgt, hblank⟩ := ne_of_isNameChar hc
    simp [step, goTo, hgt, hc, hblank]
  exact run_gather hstep h s

/-- A text without two dashes in a row makes the body of a comment longer, **and so does one
that comes after a dash** and does not begin with another. -/
theorem run_comment_and_dash {t : Text} (h : hasDashPair t = false)
    (hlast : t.getLast? ≠ some '-') :
    (∀ body, run ⟨.comment body, frame, outer⟩ t = some ⟨.comment (body ++ t), frame, outer⟩) ∧
      (∀ body, t ≠ [] → t.head? ≠ some '-' →
        run ⟨.dash body, frame, outer⟩ t = some ⟨.comment (body ++ '-' :: t), frame, outer⟩) := by
  induction t with
  | nil => exact ⟨fun body => by simp, fun body hne => absurd rfl hne⟩
  | cons c t ih =>
    obtain ⟨hborder, ht⟩ := Bool.or_eq_false_iff.mp ((hasDashPair_cons c t).symm.trans h)
    have hlast' : t.getLast? ≠ some '-' := by
      intro ht
      exact hlast (by rw [List.getLast?_cons, ht, Option.getD_some])
    obtain ⟨hcomment, hdash⟩ := ih ht hlast'
    constructor
    · intro body
      rw [run_cons]
      by_cases hc : c = '-'
      · subst hc
        -- the dash is not the last character, and not the first of two
        have hne : t ≠ [] := by
          rintro rfl
          exact hlast rfl
        have hhead : t.head? ≠ some '-' := fun hhead => of_decide_eq_false hborder ⟨rfl, hhead⟩
        exact hdash body hne hhead
      · have hstep : step ⟨.comment body, frame, outer⟩ c =
            some ⟨.comment (body ++ [c]), frame, outer⟩ := by
          simp [step, goTo, hc]
        rw [hstep, Option.bind_some, hcomment, List.append_assoc, List.singleton_append]
    · intro body _ hhead
      have hc : c ≠ '-' := fun hc => hhead (hc ▸ List.head?_cons ..)
      have hstep : step ⟨.dash body, frame, outer⟩ c =
          some ⟨.comment (body ++ ['-', c]), frame, outer⟩ := by
        simp [step, goTo, hc]
      rw [run_cons, hstep, Option.bind_some, hcomment, List.append_assoc]
      rfl

/-- **A comment goes on as long as no two dashes come.** -/
theorem run_comment {t : Text} (h : hasDashPair t = false) (hlast : t.getLast? ≠ some '-')
    (body : Text) :
    run ⟨.comment body, frame, outer⟩ t = some ⟨.comment (body ++ t), frame, outer⟩ :=
  (run_comment_and_dash h hlast).1 body

end Reader

/-! ### Pieces -/

/-- **Read as content, the text adds this text and these nodes** to the element that is open,
whatever it is. -/
def Contains (t text : Text) (nodes : List Node) : Prop :=
  ∀ frame outer, Reader.run ⟨.content, frame, outer⟩ t =
    some ⟨.content,
      { frame with text := frame.text ++ text, nodes := frame.nodes ++ nodes }, outer⟩

variable {s t text text' : Text} {nodes nodes' : List Node}

/-- **A text without `<` adds itself.** -/
theorem contains_of_lt_not_mem (h : '<' ∉ t) : Contains t t [] := by
  intro frame outer
  rw [Reader.run_content h, List.append_nil]

/-- **Pieces one after the other add one after the other.** -/
theorem Contains.append (hs : Contains s text nodes) (ht : Contains t text' nodes') :
    Contains (s ++ t) (text ++ text') (nodes ++ nodes') := by
  intro frame outer
  rw [Reader.run_append, hs frame outer, Option.bind_some, ht]
  simp

/-- A document whose text is blank is read as its nodes. -/
theorem Contains.nodes?_eq (h : Contains t text nodes) (htext : isAllBlank text = true) :
    nodes? t = some nodes := by
  rw [nodes?, start, h]
  simp [htext]

/-! ### Elements -/

/-- **The name of an element**: one character of a name or more, none of them a dash. -/
structure IsTag (tag : Text) : Prop where
  /-- There is a character. -/
  ne_nil : tag ≠ []
  /-- The characters are those of names. -/
  all : tag.all isNameChar = true
  /-- No character is a dash. -/
  dash : '-' ∉ tag

theorem IsTag.isNameChar_of_mem {tag : Text} (h : IsTag tag) {c : Char} (hc : c ∈ tag) :
    isNameChar c = true :=
  List.all_eq_true.mp h.all c hc

/-- **Read as content, the text opens an element** inside the one that is open. -/
def Opens (t : Text) (tag : Tag) : Prop :=
  ∀ frame outer, Reader.run ⟨.content, frame, outer⟩ t =
    some ⟨.content, { tag }, frame :: outer⟩

/-- An opening tag with one attribute, by which the element has a name. -/
def openingTag (tag name : Text) : Text :=
  '<' :: tag ++ " name=\"".toList ++ escapeAttribute name ++ "\">".toList

/-- A closing tag. -/
def closingTag (tag : Text) : Text := "</".toList ++ tag ++ ">".toList

/-- The name of an element begins after its `<`. -/
theorem Reader.run_mark {tag : Text} (htag : IsTag tag) :
    run ⟨.mark, frame, outer⟩ tag = some ⟨.opening { name := tag }, frame, outer⟩ := by
  obtain ⟨c, name, rfl⟩ := List.exists_cons_of_ne_nil htag.ne_nil
  have hc : isNameChar c = true := htag.isNameChar_of_mem (List.mem_cons_self ..)
  obtain ⟨hbang, hquestion, hslash, -, -⟩ := ne_of_isNameChar hc
  have hstep : step ⟨.mark, frame, outer⟩ c =
      some ⟨.opening { name := [c] }, frame, outer⟩ := by
    simp [step, goTo, hbang, hquestion, hslash, hc]
  rw [run_cons, hstep, Option.bind_some,
    run_opening fun d hd => htag.isNameChar_of_mem (List.mem_cons_of_mem c hd)]
  rfl

/-- **An opening tag opens an element that has its name**, whatever the name is. -/
theorem opens_openingTag {tag : Text} (htag : IsTag tag) (name : Text) :
    Opens (openingTag tag name) ⟨tag, [("name".toList, name)]⟩ := by
  intro frame outer
  -- from mark to mark: the name of the element, that of the attribute, its value, the end
  have hmark : Reader.run ⟨.content, frame, outer⟩ ['<'] = some ⟨.mark, frame, outer⟩ := rfl
  have hattribute : ∀ t : Tag, Reader.run ⟨.opening t, frame, outer⟩ " name=\"".toList =
      some ⟨.value t "name".toList [], frame, outer⟩ := fun _ => rfl
  have hvalue : Reader.run ⟨.value { name := tag } "name".toList [], frame, outer⟩
      (escapeAttribute name) =
        some ⟨.value { name := tag } "name".toList (escapeAttribute name), frame, outer⟩ :=
    Reader.run_value (quote_not_mem_escapeAttribute name) (lt_not_mem_escapeAttribute name)
  have hend : Reader.run
      ⟨.value { name := tag } "name".toList (escapeAttribute name), frame, outer⟩
      "\">".toList =
        some ⟨.content, { tag := ⟨tag, [("name".toList, name)]⟩ }, frame :: outer⟩ := by
    show ((decode? (escapeAttribute name)).map _).bind _ = _
    rw [decode?_escapeAttribute]
    rfl
  rw [openingTag, ← List.singleton_append, Reader.run_append, Reader.run_append, Reader.run_append,
    Reader.run_append, hmark, Option.bind_some, Reader.run_mark htag, Option.bind_some,
    hattribute, Option.bind_some, hvalue, Option.bind_some, hend]

/-- **A piece between the tags of an element adds the element.** -/
theorem Contains.element {opening value : Text} {tag : Tag} (ho : Opens opening tag)
    (h : Contains t text nodes) (htext : decode? text = some value)
    (htag : IsTag tag.name) :
    Contains (opening ++ t ++ closingTag tag.name) []
      [.element tag.name tag.attributes value nodes] := by
  intro frame outer
  have hslash : ∀ f o, Reader.run ⟨.content, f, o⟩ "</".toList = some ⟨.closing [], f, o⟩ :=
    fun _ _ => rfl
  have hname : ∀ f o, Reader.run ⟨.closing [], f, o⟩ tag.name = some ⟨.closing tag.name, f, o⟩ :=
    fun _ _ => Reader.run_closing fun _ => htag.isNameChar_of_mem
  have hend : Reader.run
      ⟨.closing tag.name, { tag, text, nodes }, frame :: outer⟩ ">".toList =
        some (Reader.add ⟨.content, frame, outer⟩
          (.element tag.name tag.attributes value nodes)) := by
    show (Reader.close? ⟨.closing tag.name, { tag, text, nodes }, frame :: outer⟩ tag.name).bind
      (Reader.run · []) = _
    simp only [Reader.close?, if_pos, htext]
    rfl
  rw [Reader.run_append, Reader.run_append, ho, Option.bind_some, h, Option.bind_some, closingTag,
    Reader.run_append, Reader.run_append, hslash, Option.bind_some, hname, Option.bind_some,
    List.nil_append, List.nil_append, hend, Reader.add, List.append_nil]

/-! ### Comments -/

/-- **A body without two dashes in a row, and without a dash at its end, is that of its
comment.** -/
theorem contains_comment {body : Text} (h : hasDashPair body = false)
    (hlast : body.getLast? ≠ some '-') :
    Contains ("<!--".toList ++ body ++ "-->".toList) [] [.comment body] := by
  intro frame outer
  have hstart : Reader.run ⟨.content, frame, outer⟩ "<!--".toList =
      some ⟨.comment [], frame, outer⟩ := rfl
  have hend : Reader.run ⟨.comment body, frame, outer⟩ "-->".toList =
      some (Reader.add ⟨.content, frame, outer⟩ (.comment body)) := rfl
  rw [Reader.run_append, Reader.run_append, hstart, Option.bind_some, Reader.run_comment h hlast,
    Option.bind_some, List.nil_append, hend, Reader.add, List.append_nil]

/-! ### Lists of pieces -/

/-- **Pieces that add one node each**, one piece for each member of a list, add one node for
each member. -/
theorem exists_contains_flatMap {α : Type} {f : α → Text} {R : α → Node → Prop}
    (h : ∀ a, ∃ text node, isAllBlank text = true ∧ Contains (f a) text [node] ∧ R a node)
    (l : List α) :
    ∃ text nodes, isAllBlank text = true ∧ Contains (l.flatMap f) text nodes ∧
      List.Forall₂ R l nodes := by
  induction l with
  | nil =>
    refine ⟨[], [], rfl, fun frame outer => ?_, List.Forall₂.nil⟩
    simp
  | cons a l ih =>
    obtain ⟨text, node, htext, hnode, hR⟩ := h a
    obtain ⟨text', nodes, htext', hnodes, hRs⟩ := ih
    refine ⟨text ++ text', node :: nodes, ?_, hnode.append hnodes, List.Forall₂.cons hR hRs⟩
    rw [isAllBlank, List.all_append, Bool.and_eq_true]
    exact ⟨htext, htext'⟩

end Markup

end CssResources
