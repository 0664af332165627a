import CssResources.Proofs.Variable.Mention
import CssResources.Proofs.Variable.Spelling

/-!
# Values token by token

A value is often several tokens with blanks between them, such as the lengths of a shorthand.
This file says how far the tokens are resolved apart from each other. Where a token closes the
parentheses that it opens, no reference reaches past the blank after it
(`CssResources.opening?_append_cons`, `CssResources.closing?_append`), so what comes after the
blank is searched for references of its own, with the budget that is left
(`CssResources.expandText_append_cons`). How much is left does not matter as long as nothing is
truncated (`CssResources.expandText_add`).

There is one exception, and it is the point of the theorem: a reference that begins and is not
closed as it should be **ends the search for the whole value**
(`CssResources.endsSearch`). From there on all is literal, the references of later tokens too.

| | lemma |
|---|---|
| where the first reference of two tokens is | `CssResources.firstReference?_append_cons` |
| what two tokens expand to | `CssResources.expandText_append_cons` |
| what more budget changes | `CssResources.expandText_add` |
-/

namespace CssResources

/-! ### Texts that leave no parenthesis open -/

/-- **A text leaves no parenthesis open**, be it that it closes some that were open before. -/
def LeavesNoneOpen (t : Text) : Prop := ∃ depth, Brackets.parens.depthAtEnd? depth t = some 0

theorem Brackets.IsBalanced.leavesNoneOpen {t : Text} (h : parens.IsBalanced t) :
    LeavesNoneOpen t := ⟨0, h⟩

/-- The end of a text that leaves no parenthesis open leaves none open. -/
theorem LeavesNoneOpen.of_append {s t : Text} (h : LeavesNoneOpen (s ++ t)) :
    LeavesNoneOpen t := by
  obtain ⟨depth, h⟩ := h
  rw [Brackets.depthAtEnd?_append] at h
  obtain ⟨depth', -, h⟩ := Option.bind_eq_some_iff.mp h
  exact ⟨depth', h⟩

/-- The parentheses open after one more character, inside one that is not closed yet. -/
theorem Brackets.after?_inside {depth : Nat} {c : Char} (h : ¬(c = ')' ∧ depth = 0)) (outer : Nat) :
    parens.after? (depth + 1 + outer) c = some (depthAfter depth c + 1 + outer) := by
  simp only [after?, parens, List.mem_singleton, depthAfter]
  grind

/-- **A parenthesis that is closed in the end is closed somewhere.** -/
theorem isSome_closingParen? {depth outer : Nat} {t : Text}
    (h : Brackets.parens.depthAtEnd? (depth + 1 + outer) t = some 0) :
    (closingParen? depth t).isSome = true := by
  induction t generalizing depth with
  | nil => simp at h
  | cons c t ih =>
    rw [closingParen?]
    split
    · rfl
    · rename_i hc
      rw [Brackets.depthAtEnd?_cons, Brackets.after?_inside hc, Option.bind_some] at h
      rw [Option.isSome_map]
      exact ih h

/-- The parenthesis that closes an open one is found whatever comes after it. -/
theorem closingParen?_append {depth : Nat} {t : Text} {p : Text × Text}
    (h : closingParen? depth t = some p) (s : Text) :
    closingParen? depth (t ++ s) = some (p.1, p.2 ++ s) := by
  induction t generalizing depth p with
  | nil => simp at h
  | cons c t ih =>
    rw [closingParen?] at h
    rw [List.cons_append, closingParen?]
    split at h
    · rename_i hc
      obtain rfl := Option.some.inj h
      rw [if_pos hc]
    · rename_i hc
      obtain ⟨q, hq, rfl⟩ := Option.map_eq_some_iff.mp h
      rw [if_neg hc, ih hq]
      rfl

/-! ### References before a blank -/

section Stop

variable {p : Char → Bool} {x : Char} {t : Text} (hx : x ∈ t) (hp : p x = false)
include hx hp

/-- A character that `p` does not hold of stops it before the end of a text. -/
theorem takeWhile_append_of_mem (s : Text) : (t ++ s).takeWhile p = t.takeWhile p := by
  rw [List.takeWhile_append, if_neg]
  intro hlength
  have hall : t.takeWhile p = t := (List.takeWhile_prefix p).eq_of_length hlength
  simp [List.takeWhile_eq_self_iff.mp hall x hx] at hp

theorem mem_dropWhile_of_mem : x ∈ t.dropWhile p := by
  have hmem : x ∈ t.takeWhile p ++ t.dropWhile p := by rwa [List.takeWhile_append_dropWhile]
  refine (List.mem_append.mp hmem).resolve_left fun htake => ?_
  simp [List.mem_takeWhile_imp htake] at hp

theorem dropWhile_append_of_mem (s : Text) : (t ++ s).dropWhile p = t.dropWhile p ++ s := by
  rw [List.dropWhile_append, if_neg]
  intro hnil
  have hmem := mem_dropWhile_of_mem hx hp
  rw [List.isEmpty_iff.mp hnil] at hmem
  simp at hmem

end Stop

/-- Where the parentheses that are open get closed, one of them is closed. -/
theorem mem_of_depthAtEnd? {depth : Nat} {t : Text}
    (h : Brackets.parens.depthAtEnd? (depth + 1) t = some 0) : ')' ∈ t := by
  rw [← Nat.zero_add (depth + 1), Nat.add_comm depth 1, ← Nat.add_assoc] at h
  obtain ⟨p, hp⟩ := Option.isSome_iff_exists.mp (isSome_closingParen? h)
  have hsplit : t = p.1 ++ ')' :: p.2 := eq_of_closingParen? hp
  rw [hsplit]
  exact List.mem_append_right _ (List.mem_cons_self ..)

/-- The opening of a reference opens a parenthesis, which is closed in what follows it. -/
theorem mem_of_afterStart?_var {t inner : Text} (ht : LeavesNoneOpen t)
    (h : afterStart? "var(".toList t = some inner) : ')' ∈ inner := by
  obtain ⟨depth, hdepth⟩ := ht
  have hvar : Brackets.parens.depthAtEnd? depth "var(".toList = some (depth + 1) := rfl
  rw [afterStart?_eq_some_iff.mp h, Brackets.depthAtEnd?_append, hvar, Option.bind_some] at hdepth
  exact mem_of_depthAtEnd? hdepth

/-- **No opening of a reference reaches past a blank**, where the text before it leaves no
parenthesis open. -/
theorem opening?_append_cons {t : Text} {b : Char} (ht : LeavesNoneOpen t)
    (hb : isBlank b = true) (v : Text) :
    opening? (t ++ b :: v) =
      (opening? t).map fun o => { o with rest := o.rest ++ b :: v } := by
  have hmarks : ∀ c ∈ "var(".toList ++ "--".toList, isBlank c = false := by simp [isBlank]
  obtain ⟨hvar, hdash⟩ : b ∉ "var(".toList ∧ b ∉ "--".toList := by
    rw [← not_or, ← List.mem_append]
    intro hmem
    simp [hmarks b hmem] at hb
  simp only [opening?, afterStart?_append_cons hvar]
  cases hinner : afterStart? "var(".toList t with
  | none => rfl
  | some inner =>
    have hparen := mem_of_afterStart?_var ht hinner
    have hblank : isBlank ')' = false := by decide
    simp only [Option.map_some, Option.bind_eq_bind, Option.bind_some, trimStart,
      dropWhile_append_of_mem hparen hblank, takeWhile_append_of_mem hparen hblank,
      afterStart?_append_cons hdash]
    cases hbody : afterStart? "--".toList (inner.dropWhile isBlank) with
    | none => rfl
    | some body =>
      have hinside : ')' ∈ "--".toList ++ body := by
        rw [← afterStart?_eq_some_iff.mp hbody]
        exact mem_dropWhile_of_mem hparen hblank
      have hmem : ')' ∈ body := (List.mem_append.mp hinside).resolve_left (by decide)
      have hname : isVariableChar ')' = false := by decide
      have hrest := mem_dropWhile_of_mem hmem hname
      simp only [Option.map_some, Option.bind_some, takeWhile_append_of_mem hmem hname,
        dropWhile_append_of_mem hmem hname, takeWhile_append_of_mem hrest hblank,
        dropWhile_append_of_mem hrest hblank]
      split <;> rfl

/-- An opening opens one parenthesis. -/
theorem depthAtEnd?_written {t : Text} {o : Opening} (h : opening? t = some o) (depth : Nat) :
    Brackets.parens.depthAtEnd? depth o.written = some (depth + 1) := by
  obtain ⟨hname, lead, trail, hlead, htrail, hwritten⟩ := exists_eq_openingText h
  -- after the parenthesis come blanks, dashes and the name
  have hplain : ∀ c, (isBlank c = true ∨ isVariableChar c = true) →
      c ∉ Brackets.parens.opens ∧ c ∉ Brackets.parens.closes := by
    intro c hc
    simp only [Brackets.parens, List.mem_singleton]
    constructor <;> rintro rfl <;> revert hc <;> decide
  have hdashes : ∀ c ∈ "--".toList, isVariableChar c = true := by simp [isVariableChar]
  rw [hwritten, ← List.append_nil (openingText _ _ _), openingText_append,
    Brackets.depthAtEnd?_append]
  refine Brackets.depthAtEnd?_of_not_mem (fun c hc => hplain c ?_) (depth + 1)
  simp only [List.append_nil, List.mem_append] at hc
  rcases hc with hc | hc | hc | hc
  · exact Or.inl (isBlank_of_mem_isAllBlank hlead hc)
  · exact Or.inr (hdashes c hc)
  · exact Or.inr (hname.nameChars c hc)
  · exact Or.inl (isBlank_of_mem_isAllBlank htrail hc)

/-- **The closing of a reference does not reach past the end of a text** that closes the
parenthesis of the reference. -/
theorem closing?_append {t : Text} {depth : Nat}
    (ht : Brackets.parens.depthAtEnd? (depth + 1) t = some 0) (s : Text) :
    closing? (t ++ s) = (closing? t).map fun d => { d with rest := d.rest ++ s } := by
  cases t with
  | nil => simp at ht
  | cons c t =>
    rw [List.cons_append]
    by_cases hparen : c = ')'
    · subst hparen
      rfl
    by_cases hcomma : c = ','
    · subst hcomma
      have hdepth : Brackets.parens.depthAtEnd? (0 + 1 + depth) t = some 0 := by
        rwa [Nat.zero_add, Nat.add_comm 1 depth]
      obtain ⟨p, hp⟩ := Option.isSome_iff_exists.mp (isSome_closingParen? hdepth)
      rw [closing?, closing?, closingParen?_append hp, hp]
      rfl
    · simp [closing?, hparen, hcomma]

/-- **The first reference of two tokens** is that of the first token, if it has one. If a
reference begins there and is not closed as it should be there is none, and only else it is
that of the second. -/
theorem firstReference?_append_cons {t : Text} {b : Char} (ht : LeavesNoneOpen t)
    (hb : isBlank b = true) (v : Text) :
    firstReference? (t ++ b :: v) =
      match firstReference? t with
      | some c => some { c with after := c.after ++ b :: v }
      | none =>
        if hasReference t then none
        else (firstReference? v).map fun c => { c with before := t ++ b :: c.before } := by
  induction t with
  | nil =>
    have hblank : isAllBlank [b] = true := by simpa
    simpa [firstReference?] using firstReference?_blank_append v hblank
  | cons x t ih =>
    have hx : LeavesNoneOpen t := LeavesNoneOpen.of_append (s := [x]) ht
    rw [List.cons_append, firstReference?_cons, firstReference?_cons, hasReference_cons,
      ← List.cons_append, opening?_append_cons ht hb]
    cases ho : opening? (x :: t) with
    | none =>
      simp only [Option.map_none, ih hx, Option.isSome_none, Bool.false_or]
      cases firstReference? t with
      | some c => rfl
      | none =>
        dsimp only [Option.map_none]
        split
        · rfl
        · cases firstReference? v <;> rfl
    | some o =>
      obtain ⟨depth, hdepth⟩ := ht
      rw [eq_of_opening? ho, Brackets.depthAtEnd?_append, depthAtEnd?_written ho,
        Option.bind_some] at hdepth
      simp only [Option.map_some, closing?_append hdepth, Option.map_map]
      cases closing? o.rest <;> simp

/-- The text after a reference leaves no parenthesis open if the whole text does not. -/
theorem LeavesNoneOpen.after {t : Text} {c : Cut} (h : LeavesNoneOpen t)
    (hc : firstReference? t = some c) : LeavesNoneOpen c.after := by
  rw [eq_of_firstReference? hc, ← List.append_assoc] at h
  exact h.of_append

/-! ### Where the search ends -/

/-- The text after the last reference that the search finds. -/
def afterReferences (t : Text) : Text :=
  match _h : firstReference? t with
  | none => t
  | some c => afterReferences c.after
termination_by t.length
decreasing_by exact length_after_lt _h

theorem afterReferences_of_none {t : Text} (h : firstReference? t = none) :
    afterReferences t = t := by
  rw [afterReferences]
  split
  · rfl
  · rename_i c hc
    simp [h] at hc

theorem afterReferences_of_some {t : Text} {c : Cut} (h : firstReference? t = some c) :
    afterReferences t = afterReferences c.after := by
  rw [afterReferences]
  split
  · rename_i hnone
    simp [h] at hnone
  · rename_i c' hc'
    obtain rfl : c = c' := Option.some.inj (h.symm.trans hc')
    rfl

/-- **A reference of the text ends the search**: it begins after the last one that is found,
and is not closed as it should be. -/
def endsSearch (t : Text) : Bool := hasReference (afterReferences t)

/-! ### The expansion of two tokens -/

variable {lookup : Text → Option Text} {chain : List Text} {budget : Nat}

/-- **A text before the first reference stays as it is**, and costs nothing. -/
theorem expandText_append_of_before {s t : Text}
    (h : firstReference? (s ++ t) =
      (firstReference? t).map fun c => { c with before := s ++ c.before }) :
    expandText lookup chain budget (s ++ t) =
      ({ value := s, left := budget } : Expansion) ++ expandText lookup chain budget t := by
  cases hc : firstReference? t with
  | none =>
    rw [hc, Option.map_none] at h
    rw [expandText_of_none h, expandText_of_none hc]
    ext1 <;> simp
  | some c =>
    rw [hc, Option.map_some] at h
    cases hf : c.reference.fate lookup chain budget with
    | kept o =>
      rw [expandText_of_kept h hf, expandText_of_kept hc hf]
      cases o <;> ext1 <;> simp [Obstacle.expansion]
    | replaced source =>
      obtain ⟨-, -, hbudget⟩ := Reference.fate_eq_replaced_iff.mp hf
      obtain ⟨n, rfl⟩ := Nat.exists_eq_succ_of_ne_zero hbudget
      rw [expandText_of_replaced h hf, expandText_of_replaced hc hf]
      ext1 <;> simp

/-- What is made of a blank and the text after it, when the text before them leaves so much of
the budget: it is literal if the search has ended. -/
def expandLater (lookup : Text → Option Text) (chain : List Text) (left : Nat) (ended : Bool)
    (b : Char) (v : Text) : Expansion :=
  if ended then { value := b :: v, left }
  else ({ value := [b], left } : Expansion) ++ expandText lookup chain left v

/-- **What two tokens expand to.** The second gets the budget that the first leaves, unless a
reference of the first ended the search. -/
theorem expandText_append_cons (lookup : Text → Option Text) {b : Char} (hb : isBlank b = true)
    (v : Text) (chain : List Text) (budget : Nat) (u : Text) (hu : LeavesNoneOpen u) :
    expandText lookup chain budget (u ++ b :: v) =
      expandText lookup chain budget u
        ++ expandLater lookup chain (expandText lookup chain budget u).left (endsSearch u) b v := by
  induction chain, budget, u using expandText_induction lookup with
  | verbatim chain budget u hc =>
    have h := firstReference?_append_cons hu hb v
    rw [hc] at h
    rw [expandText_of_none hc, endsSearch, afterReferences_of_none hc]
    cases href : hasReference u with
    | true =>
      rw [href] at h
      rw [expandText_of_none h, expandLater]
      ext1 <;> simp
    | false =>
      rw [href] at h
      have hsplit : u ++ b :: v = (u ++ [b]) ++ v := by simp
      rw [hsplit] at h ⊢
      rw [expandText_append_of_before (by simpa using h), expandLater]
      ext1 <;> simp
  | kept chain budget u c o hc hf ih =>
    -- a reference of the first token has the same fate with and without the second
    have h := firstReference?_append_cons hu hb v
    rw [hc] at h
    have hafter := hu.after hc
    rw [expandText_of_kept h hf, expandText_of_kept hc hf, ih hafter, endsSearch, endsSearch,
      afterReferences_of_some hc, Expansion.append_assoc]
    rfl
  | replaced chain budget u c source hc hf _ ih =>
    have h := firstReference?_append_cons hu hb v
    rw [hc] at h
    have hafter := hu.after hc
    have hleft := left_expandText_le lookup (c.reference.innerChain lookup chain) budget
      (trim source)
    rw [expandText_of_replaced h hf, expandText_of_replaced hc hf, endsSearch,
      afterReferences_of_some hc, ← endsSearch]
    simp only [ih _ hleft hafter, Expansion.append_assoc, Expansion.left_append]

/-! ### The theorem -/

/-- **Tokens are resolved apart from each other, up to a reference that is not closed as it
should be.** For two tokens of which the first has its parentheses balanced, the value resolved
is that of the first, the space, and that of the second, as long as nothing is truncated; but
if a reference of the first token ends the search, the second is kept as it is written. -/
theorem value_resolve_append_space (table : VariableTable) (limit : Nat) {u : Text} (v : Text)
    (hu : Brackets.parens.IsBalanced u)
    (h : (resolve table.value? limit (u ++ ' ' :: v)).truncated = []) :
    (resolve table.value? limit (u ++ ' ' :: v)).value =
      (resolve table.value? limit u).value
        ++ ' ' :: (if endsSearch u then v else (resolve table.value? limit v).value) := by
  have hspace : isBlank ' ' = true := by decide
  have hexpand := expandText_append_cons table.value? hspace v [] limit u hu.leavesNoneOpen
  rw [truncated_resolve_eq_nil_iff, hexpand] at h
  simp only [Expansion.truncated_append, List.append_eq_nil_iff] at h
  simp only [value_resolve, hexpand, Expansion.value_append]
  cases hends : endsSearch u with
  | true => simp [expandLater]
  | false =>
    rw [hends] at h
    have hlater : (expandText table.value? []
        (expandText table.value? [] limit u).left v).truncated = [] := by
      simpa [expandLater] using h.2
    -- the second token alone has more of the budget than the first leaves, and needs no more
    obtain ⟨spare, hspare⟩ := Nat.exists_eq_add_of_le (left_expandText_le table.value? [] limit u)
    have hv := congrArg Expansion.value (expandText_add table.value? spare [] _ v hlater)
    rw [← hspare] at hv
    simp [expandLater, hv]

/-- A table with one property. -/
def gapTable : VariableTable := VariableTable.define ∅ "gap".toList "8px".toList 1

theorem firstReference?_gap : firstReference? "var(--gap)".toList =
    some ⟨[], ⟨"gap".toList, none, "var(--gap)".toList⟩, []⟩ := by decide

theorem value_resolve_append_space_gap :
    Brackets.parens.IsBalanced "var(--gap)".toList ∧
      (resolve gapTable.value? 2 "var(--gap) var(--edge, 2px)".toList).truncated = [] ∧
      (resolve gapTable.value? 2 "var(--gap) var(--edge, 2px)".toList).value =
        (resolve gapTable.value? 2 "var(--gap)".toList).value
          ++ ' ' :: (resolve gapTable.value? 2 "var(--edge, 2px)".toList).value := by
  have hbalanced : Brackets.parens.IsBalanced "var(--gap)".toList := by decide
  have htruncated :
      (resolve gapTable.value? 2 "var(--gap) var(--edge, 2px)".toList).truncated = [] := by
    have hgap : firstReference? "var(--gap) var(--edge, 2px)".toList =
        some ⟨[], ⟨"gap".toList, none, "var(--gap)".toList⟩, " var(--edge, 2px)".toList⟩ := by
      decide
    have hedge : firstReference? " var(--edge, 2px)".toList =
        some ⟨[' '], ⟨"edge".toList, some " 2px".toList, "var(--edge, 2px)".toList⟩, []⟩ := by
      decide
    have hvalue : Reference.fate gapTable.value? [] 2 ⟨"gap".toList, none, "var(--gap)".toList⟩ =
        .replaced "8px".toList := by decide
    have hfallback : Reference.fate gapTable.value? [] 1
        ⟨"edge".toList, some " 2px".toList, "var(--edge, 2px)".toList⟩ =
          .replaced " 2px".toList := by decide
    rw [truncated_resolve_eq_nil_iff, expandText_of_replaced_of_none hgap hvalue (by decide),
      expandText_of_replaced_of_none hedge hfallback (by decide), expandText_of_none rfl]
    rfl
  have hends : endsSearch "var(--gap)".toList = false := by
    rw [endsSearch, afterReferences_of_some firstReference?_gap, afterReferences_of_none rfl]
    rfl
  have h := value_resolve_append_space gapTable 2 "var(--edge, 2px)".toList hbalanced htruncated
  rw [hends] at h
  exact ⟨hbalanced, htruncated, h⟩

/-- **A reference that is not closed as it should be hides the references of a later token**,
although all parentheses are balanced and nothing is truncated. -/
theorem value_resolve_ne_append_space_gap :
    Brackets.parens.IsBalanced "var(--a x)".toList ∧
      Brackets.parens.IsBalanced "var(--gap)".toList ∧
      (resolve gapTable.value? 2 "var(--a x) var(--gap)".toList).truncated = [] ∧
      (resolve gapTable.value? 2 "var(--a x) var(--gap)".toList).value ≠
        (resolve gapTable.value? 2 "var(--a x)".toList).value
          ++ ' ' :: (resolve gapTable.value? 2 "var(--gap)".toList).value := by
  have hvalue : (resolve gapTable.value? 2 "var(--gap)".toList).value = "8px".toList := by
    have hfate : Reference.fate gapTable.value? [] 2 ⟨"gap".toList, none, "var(--gap)".toList⟩ =
        .replaced "8px".toList := by decide
    rw [value_resolve, expandText_of_replaced_of_none firstReference?_gap hfate (by decide),
      expandText_of_none rfl]
    rfl
  have hnone : firstReference? "var(--a x)".toList = none := by decide
  have hboth : firstReference? "var(--a x) var(--gap)".toList = none := by decide
  rw [hvalue, resolve_of_none hnone, resolve_of_none hboth]
  decide

end CssResources
