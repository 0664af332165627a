import CssResources.Proofs.Distinct
import CssResources.Proofs.Text.Blank
import CssResources.Variable.Resolve

/-!
# Substitution, reference by reference

`CssResources.expand` works on the pieces of a value. This file reads it on the value's
text: the text is cut at its first reference (`CssResources.firstReference?`), the
**fate** of that reference is decided (`CssResources.Reference.fate`), and the text after
it is expanded with the budget that is left. Three equations say so, one for each way the
reading can go:

| what the text begins with | equation |
|---|---|
| no reference that is closed | `CssResources.expandText_of_none` |
| a reference that stays as it is | `CssResources.expandText_of_kept` |
| a reference that is replaced | `CssResources.expandText_of_replaced` |

An induction along these equations is an induction on the budget and, for one budget, on
the length of the text: the loop over the text of a value and the recursion into the
values it refers to share one budget, so neither of the two measures would do alone
(`CssResources.expandText_induction`). The first thing that is proved so is that a budget that
suffices may as well be larger (`CssResources.expandText_add`).
-/

namespace CssResources

/-! ### The first reference of a text -/

/-- **A text cut at its first reference.** -/
structure Cut where
  /-- The text before the reference. -/
  before : Text
  /-- The reference. -/
  reference : Reference
  /-- The text after the reference. -/
  after : Text
  deriving DecidableEq, Repr

/-- **The first reference of a text.** There is none if the first reference that begins is
not closed as it should be. -/
def firstReference? (t : Text) : Option Cut :=
  (firstOpening? t).bind fun p =>
    (closing? p.2.rest).map fun c =>
      { before := p.1
        reference :=
          { name := p.2.name, fallback? := c.fallback?, written := p.2.written ++ c.written }
        after := c.rest }

variable {t : Text} {c : Cut}

/-- What a cut is made of: an opening, and the closing right after it. -/
theorem opening_closing_of_firstReference? (h : firstReference? t = some c) :
    ∃ o d, firstOpening? t = some (c.before, o) ∧ closing? o.rest = some d ∧
      c.reference =
        { name := o.name, fallback? := d.fallback?, written := o.written ++ d.written } ∧
      c.after = d.rest := by
  obtain ⟨p, hp, hc⟩ := Option.bind_eq_some_iff.mp h
  obtain ⟨d, hd, rfl⟩ := Option.map_eq_some_iff.mp hc
  exact ⟨p.2, d, hp, hd, rfl, rfl⟩

/-- A text without a first reference is one piece. -/
theorem Piece.ofText_of_none (h : firstReference? t = none) : Piece.ofText t = [.literal t] := by
  rw [Piece.ofText]
  split
  · rfl
  · rename_i before o ho
    split
    · rfl
    · rename_i d hd
      simp [firstReference?, ho, hd] at h

/-- The pieces of a text with a first reference. -/
theorem Piece.ofText_of_some (h : firstReference? t = some c) :
    Piece.ofText t = .literal c.before :: .reference c.reference :: Piece.ofText c.after := by
  obtain ⟨o, d, ho, hd, hr, ha⟩ := opening_closing_of_firstReference? h
  rw [Piece.ofText]
  split
  · rename_i hnone
    simp [ho] at hnone
  · rename_i before o' ho'
    obtain ⟨rfl, rfl⟩ : c.before = before ∧ o = o' := by simpa using ho.symm.trans ho'
    split
    · rename_i hnone
      simp [hd] at hnone
    · rename_i d' hd'
      obtain rfl : d = d' := Option.some.inj (hd.symm.trans hd')
      rw [hr, ha]

/-- **Nothing is lost at a cut.** -/
theorem eq_of_firstReference? (h : firstReference? t = some c) :
    t = c.before ++ (c.reference.written ++ c.after) := by
  have hpieces := congrArg (List.flatMap Piece.written) (Piece.ofText_of_some h)
  simpa [Piece.written_ofText, Piece.written] using hpieces

/-- The closing of a reference is its fallback, with a comma before it and a parenthesis
after it. -/
theorem eq_fallback_of_closing? {u f : Text} {d : Closing} (h : closing? u = some d)
    (hf : d.fallback? = some f) : d.written = ',' :: f ++ [')'] := by
  unfold closing? at h
  split at h
  · obtain rfl := Option.some.inj h
    simp at hf
  · obtain ⟨p, hp, rfl⟩ := Option.map_eq_some_iff.mp h
    obtain rfl : p.1 = f := by simpa using hf
    rfl
  · simp at h

/-- **The fallback of a reference is a part of its text.** -/
theorem exists_eq_append_fallback (h : firstReference? t = some c) {f : Text}
    (hf : c.reference.fallback? = some f) :
    ∃ u, c.reference.written = u ++ (',' :: f ++ [')']) := by
  obtain ⟨o, d, ho, hd, hr, ha⟩ := opening_closing_of_firstReference? h
  rw [hr] at hf ⊢
  exact ⟨o.written, by rw [eq_fallback_of_closing? hd hf]⟩

/-- A fallback is shorter than the text that it stands in. -/
theorem length_fallback_lt (h : firstReference? t = some c) {f : Text}
    (hf : c.reference.fallback? = some f) : f.length < t.length := by
  obtain ⟨u, hu⟩ := exists_eq_append_fallback h hf
  rw [eq_of_firstReference? h, hu]
  simp only [List.length_append, List.length_cons]
  omega

/-- The text after a reference is shorter than the text that it stands in. -/
theorem length_after_lt (h : firstReference? t = some c) : c.after.length < t.length := by
  obtain ⟨o, d, ho, hd, hr, ha⟩ := opening_closing_of_firstReference? h
  rw [ha]
  exact Nat.lt_of_lt_of_le (length_rest_of_closing? hd) (length_rest_of_firstOpening? ho)

/-! ### The fate of a reference -/

/-- **Why a reference stays as it is written.** -/
inductive Obstacle where
  /-- The property is being expanded already. -/
  | cycle
  /-- The property has no value, and the reference no fallback. -/
  | undefined
  /-- The budget is used up. -/
  | exhausted
  deriving DecidableEq, Repr

/-- **What becomes of a reference.** -/
inductive Fate where
  /-- It stays as it is written. -/
  | kept (obstacle : Obstacle)
  /-- It is replaced by the expansion of a text. -/
  | replaced (source : Text)
  deriving DecidableEq, Repr

/-- What a part of a value that stays as it is adds to an expansion, for a reference to
`name`. -/
def Obstacle.expansion (name part : Text) (budget : Nat) : Obstacle → Expansion
  | cycle => { value := part, cycles := [name], left := budget }
  | undefined => { value := part, unresolved := [name], left := budget }
  | exhausted => { value := part, truncated := [name], left := budget }

@[simp] theorem Obstacle.value_expansion (name part : Text) (budget : Nat) (o : Obstacle) :
    (o.expansion name part budget).value = part := by
  cases o <;> rfl

@[simp] theorem Obstacle.left_expansion (name part : Text) (budget : Nat) (o : Obstacle) :
    (o.expansion name part budget).left = budget := by
  cases o <;> rfl

variable (lookup : Text → Option Text)

namespace Reference

/-- What a reference stands for: the value of its property, else its fallback. -/
def source? (r : Reference) : Option Text := (lookup r.name).or r.fallback?

/-- **The fate of a reference**: the chain is asked first, then the budget. -/
def fate (chain : List Text) (budget : Nat) (r : Reference) : Fate :=
  if r.name ∈ chain then .kept .cycle
  else
    match r.source? lookup with
    | none => .kept .undefined
    | some source => if budget = 0 then .kept .exhausted else .replaced source

/-- The chain inside what a reference is replaced by. A fallback is no property's value,
so it does not lengthen the chain. -/
def innerChain (chain : List Text) (r : Reference) : List Text :=
  if (lookup r.name).isSome then r.name :: chain else chain

variable {lookup} {chain : List Text} {budget : Nat} {r : Reference} {source : Text}

theorem mem_innerChain_iff {m : Text} :
    m ∈ r.innerChain lookup chain ↔ m ∈ chain ∨ m = r.name ∧ (lookup r.name).isSome := by
  rw [innerChain]
  split
  · rename_i hsome
    simp [hsome, or_comm]
  · rename_i hnone
    simp [hnone]

/-- **The four ways that the fate of a reference is decided.** -/
theorem fate_cases (lookup : Text → Option Text) (chain : List Text) (budget : Nat)
    (r : Reference) :
    (r.name ∈ chain ∧ r.fate lookup chain budget = .kept .cycle) ∨
      (r.name ∉ chain ∧ r.source? lookup = none ∧
        r.fate lookup chain budget = .kept .undefined) ∨
      (r.name ∉ chain ∧ (r.source? lookup).isSome ∧ budget = 0 ∧
        r.fate lookup chain budget = .kept .exhausted) ∨
      ∃ source, r.name ∉ chain ∧ r.source? lookup = some source ∧ budget ≠ 0 ∧
        r.fate lookup chain budget = .replaced source := by
  unfold fate
  by_cases hchain : r.name ∈ chain
  · exact Or.inl ⟨hchain, if_pos hchain⟩
  · refine Or.inr ?_
    rw [if_neg hchain]
    cases hsource : r.source? lookup with
    | none => exact Or.inl ⟨hchain, rfl, rfl⟩
    | some source =>
      by_cases hbudget : budget = 0
      · exact Or.inr (Or.inl ⟨hchain, rfl, hbudget, if_pos hbudget⟩)
      · exact Or.inr (Or.inr ⟨source, hchain, rfl, hbudget, if_neg hbudget⟩)

theorem fate_eq_cycle_iff : r.fate lookup chain budget = .kept .cycle ↔ r.name ∈ chain := by
  rcases fate_cases lookup chain budget r with h | h | ⟨hchain, hsource, rfl, h⟩ | ⟨source, h⟩ <;>
    simp_all

theorem fate_eq_undefined_iff :
    r.fate lookup chain budget = .kept .undefined ↔ r.name ∉ chain ∧ r.source? lookup = none := by
  rcases fate_cases lookup chain budget r with h | h | ⟨hchain, hsource, -, h⟩ | ⟨source, h⟩
  · simp [h]
  · simp [h]
  · simp [h, Option.isSome_iff_ne_none.mp hsource]
  · simp [h]

theorem fate_eq_exhausted_iff :
    r.fate lookup chain budget = .kept .exhausted ↔
      r.name ∉ chain ∧ (r.source? lookup).isSome ∧ budget = 0 := by
  rcases fate_cases lookup chain budget r with h | h | ⟨hchain, hsource, rfl, h⟩ | ⟨source, h⟩ <;>
    simp_all

/-- **A reference is replaced exactly if nothing stands in the way.** -/
theorem fate_eq_replaced_iff :
    r.fate lookup chain budget = .replaced source ↔
      r.name ∉ chain ∧ r.source? lookup = some source ∧ budget ≠ 0 := by
  rcases fate_cases lookup chain budget r with h | h | ⟨hchain, hsource, rfl, h⟩ | ⟨source', h⟩ <;>
    simp_all

end Reference

/-! ### The expansion of a text -/

/-- **The expansion of a text**, with the properties being expanded and a budget. -/
def expandText (chain : List Text) (budget : Nat) (t : Text) : Expansion :=
  expand lookup chain budget (Piece.ofText t)

variable {lookup} {chain : List Text} {budget : Nat}

/-- **A text without a first reference stays as it is.** -/
theorem expandText_of_none (h : firstReference? t = none) :
    expandText lookup chain budget t = { value := t, left := budget } := by
  rw [expandText, Piece.ofText_of_none h, expand, expand]
  ext1 <;> simp

/-- A text without a first reference resolves to itself. -/
theorem resolve_of_none {limit : Nat} (h : firstReference? t = none) :
    resolve lookup limit t = { value := t, unresolved := [], cycles := [], truncated := [] } := by
  rw [resolve, ← expandText, expandText_of_none h]
  rfl

/-- The pieces from a reference on are expanded as its fate says. What a replacement leaves
of the budget goes to the pieces after it as it is. -/
theorem expand_cons_reference (r : Reference) (ps : List Piece) :
    expand lookup chain budget (.reference r :: ps) =
      match r.fate lookup chain budget with
      | .kept o => o.expansion r.name r.written budget ++ expand lookup chain budget ps
      | .replaced source =>
        let inner :=
          expand lookup (r.innerChain lookup chain) (budget - 1) (Piece.ofText (trim source))
        inner ++ expand lookup chain inner.left ps := by
  rw [expand.eq_def, Reference.fate, Reference.source?]
  dsimp only
  split
  · rfl
  · cases (lookup r.name).or r.fallback? with
    | none => rfl
    | some source =>
      cases budget with
      | zero => rfl
      | succ n => simp [Reference.innerChain, Nat.min_eq_left (left_expand_le _ _ _ _)]

/-- **A reference that is kept** stays with the text before it, and is reported. -/
theorem expandText_of_kept {o : Obstacle} (h : firstReference? t = some c)
    (hf : c.reference.fate lookup chain budget = .kept o) :
    expandText lookup chain budget t =
      o.expansion c.reference.name (c.before ++ c.reference.written) budget
        ++ expandText lookup chain budget c.after := by
  rw [expandText, Piece.ofText_of_some h, expand, expand_cons_reference, hf]
  cases o <;> ext1 <;> simp [Obstacle.expansion, expandText]

/-- **A reference that is replaced** takes one from the budget. What its replacement leaves
is what the text after it gets. -/
theorem expandText_of_replaced {source : Text} (h : firstReference? t = some c)
    (hf : c.reference.fate lookup chain (budget + 1) = .replaced source) :
    expandText lookup chain (budget + 1) t =
      let inner := expandText lookup (c.reference.innerChain lookup chain) budget (trim source)
      { value := c.before, left := budget } ++ (inner
        ++ expandText lookup chain inner.left c.after) := by
  rw [expandText, Piece.ofText_of_some h, expand, expand_cons_reference, hf]
  ext1 <;> simp [expandText]

/-- A reference that is replaced by a text without references takes one from the budget. -/
theorem expandText_of_replaced_of_none {t source : Text} {c : Cut} (h : firstReference? t = some c)
    (hf : c.reference.fate lookup chain (budget + 1) = .replaced source)
    (hsource : firstReference? (trim source) = none) :
    expandText lookup chain (budget + 1) t =
      ({ value := c.before ++ trim source, left := budget } : Expansion)
        ++ expandText lookup chain budget c.after := by
  rw [expandText_of_replaced h hf, expandText_of_none hsource]
  ext1 <;> simp

/-- **A text with one reference resolves to what its source is put into**, if this holds none. -/
theorem resolve_of_replaced {limit : Nat} {source : Text} (h : firstReference? t = some c)
    (hf : c.reference.fate lookup [] (limit + 1) = .replaced source)
    (hsource : firstReference? (trim source) = none) (hafter : firstReference? c.after = none) :
    resolve lookup (limit + 1) t =
      { value := c.before ++ (trim source ++ c.after), unresolved := [], cycles := [],
        truncated := [] } := by
  rw [resolve, ← expandText, expandText_of_replaced_of_none h hf hsource,
    expandText_of_none hafter]
  simp

/-- A text that is one reference resolves to its source, if this holds none. -/
theorem resolve_of_reference {limit : Nat} {r : Reference} {source : Text}
    (h : firstReference? t = some ⟨[], r, []⟩)
    (hf : r.fate lookup [] (limit + 1) = .replaced source)
    (hsource : firstReference? (trim source) = none) :
    resolve lookup (limit + 1) t =
      { value := trim source, unresolved := [], cycles := [], truncated := [] } := by
  rw [resolve_of_replaced h hf hsource rfl, List.nil_append, List.append_nil]

/-- The budget left by the expansion of a text is no more than it was given. -/
theorem left_expandText_le (lookup : Text → Option Text) (chain : List Text) (budget : Nat)
    (t : Text) : (expandText lookup chain budget t).left ≤ budget :=
  left_expand_le lookup chain budget (Piece.ofText t)

/-- **Induction along the expansion of a text.** For a text whose first reference is
replaced, what is to be shown is assumed of the replacement, with a smaller budget and
whatever chain, and of the text after the reference, with any budget that is left. -/
theorem expandText_induction (lookup : Text → Option Text)
    {P : List Text → Nat → Text → Prop}
    (verbatim : ∀ chain budget t, firstReference? t = none → P chain budget t)
    (kept : ∀ chain budget t c o, firstReference? t = some c →
      c.reference.fate lookup chain budget = .kept o → P chain budget c.after → P chain budget t)
    (replaced : ∀ chain budget t c source, firstReference? t = some c →
      c.reference.fate lookup chain (budget + 1) = .replaced source →
      P (c.reference.innerChain lookup chain) budget (trim source) →
      (∀ left ≤ budget, P chain left c.after) → P chain (budget + 1) t)
    (chain : List Text) (budget : Nat) (t : Text) : P chain budget t := by
  -- the budget first: a replacement may be longer than the text it is put into
  induction budget using Nat.strongRecOn generalizing chain t with
  | ind budget ihBudget =>
    induction h : t.length using Nat.strongRecOn generalizing chain t with
    | ind length ihLength =>
      subst h
      cases hc : firstReference? t with
      | none => exact verbatim chain budget t hc
      | some c =>
        have hafter : P chain budget c.after :=
          ihLength c.after.length (length_after_lt hc) chain c.after rfl
        cases hf : c.reference.fate lookup chain budget with
        | kept o => exact kept chain budget t c o hc hf hafter
        | replaced source =>
          obtain ⟨-, -, hbudget⟩ := Reference.fate_eq_replaced_iff.mp hf
          obtain ⟨n, rfl⟩ := Nat.exists_eq_succ_of_ne_zero hbudget
          exact replaced chain n t c source hc hf
            (ihBudget n (Nat.lt_succ_self n) _ _)
            (fun left hleft => ihBudget left (Nat.lt_succ_of_le hleft) _ _)

/-! ### More budget -/

/-- **A budget that suffices suffices if there is more of it**: where nothing is truncated, what
is spared is left over and nothing else changes. -/
theorem expandText_add (lookup : Text → Option Text) (spare : Nat) (chain : List Text)
    (budget : Nat) (t : Text) (h : (expandText lookup chain budget t).truncated = []) :
    expandText lookup chain (budget + spare) t =
      { expandText lookup chain budget t with
        left := (expandText lookup chain budget t).left + spare } := by
  induction chain, budget, t using expandText_induction lookup with
  | verbatim chain budget t hc =>
    rw [expandText_of_none hc, expandText_of_none hc]
  | kept chain budget t c o hc hf ih =>
    rw [expandText_of_kept hc hf, Expansion.truncated_append, List.append_eq_nil_iff] at h
    have hspare : c.reference.fate lookup chain (budget + spare) = .kept o := by
      cases o with
      | cycle => exact Reference.fate_eq_cycle_iff.mpr (Reference.fate_eq_cycle_iff.mp hf)
      | undefined =>
        exact Reference.fate_eq_undefined_iff.mpr (Reference.fate_eq_undefined_iff.mp hf)
      | exhausted => simp [Obstacle.expansion] at h
    rw [expandText_of_kept hc hspare, expandText_of_kept hc hf, ih h.2]
    cases o <;> rfl
  | replaced chain budget t c source hc hf ihinner ihafter =>
    rw [expandText_of_replaced hc hf] at h
    obtain ⟨-, h⟩ := List.append_eq_nil_iff.mp h
    obtain ⟨hinner, hafter⟩ := List.append_eq_nil_iff.mp h
    have hspare : c.reference.fate lookup chain (budget + spare + 1) = .replaced source := by
      obtain ⟨hchain, hsource, -⟩ := Reference.fate_eq_replaced_iff.mp hf
      exact Reference.fate_eq_replaced_iff.mpr ⟨hchain, hsource, Nat.succ_ne_zero _⟩
    have hleft := left_expandText_le lookup (c.reference.innerChain lookup chain) budget
      (trim source)
    rw [Nat.add_right_comm, expandText_of_replaced hc hspare, expandText_of_replaced hc hf]
    simp only [ihinner hinner, ihafter _ hleft hafter]
    rfl

theorem value_resolve (lookup : Text → Option Text) (limit : Nat) (t : Text) :
    (resolve lookup limit t).value = (expandText lookup [] limit t).value := rfl

theorem truncated_resolve_eq_nil_iff {limit : Nat} :
    (resolve lookup limit t).truncated = [] ↔ (expandText lookup [] limit t).truncated = [] :=
  eraseDups_eq_nil_iff

/-! ### What an expansion is made of -/

/-- **What a reference is replaced by** is the value of its property, or a part of the reference
itself. -/
theorem source?_cases {source : Text} (h : firstReference? t = some c)
    (hsource : c.reference.source? lookup = some source) :
    lookup c.reference.name = some source ∨ source.Sublist c.reference.written := by
  rcases Option.or_eq_some_iff.mp hsource with hvalue | ⟨-, hf⟩
  · exact Or.inl hvalue
  · obtain ⟨u, hu⟩ := exists_eq_append_fallback h hf
    rw [hu]
    exact Or.inr (((List.sublist_append_left _ _).trans (List.sublist_cons_self _ _)).trans
      (List.sublist_append_right _ _))

/-- **An expansion adds no character of its own**: each is one of the text, or of the value of a
property. -/
theorem mem_value_expandText {x : Char} (chain : List Text) (budget : Nat) (t : Text)
    (h : x ∈ (expandText lookup chain budget t).value) :
    x ∈ t ∨ ∃ name value, lookup name = some value ∧ x ∈ value := by
  induction chain, budget, t using expandText_induction lookup with
  | verbatim chain budget t hc =>
    rw [expandText_of_none hc] at h
    exact Or.inl h
  | kept chain budget t c o hc hf ih =>
    rw [expandText_of_kept hc hf, Expansion.value_append, Obstacle.value_expansion,
      List.mem_append, List.mem_append] at h
    rw [eq_of_firstReference? hc, List.mem_append, List.mem_append]
    rcases h with (h | h) | h
    · exact Or.inl (Or.inl h)
    · exact Or.inl (Or.inr (Or.inl h))
    · exact (ih h).imp_left fun h => Or.inr (Or.inr h)
  | replaced chain budget t c source hc hf ihinner ihafter =>
    obtain ⟨-, hsource, -⟩ := Reference.fate_eq_replaced_iff.mp hf
    rw [expandText_of_replaced hc hf, Expansion.value_append, Expansion.value_append,
      List.mem_append, List.mem_append] at h
    rw [eq_of_firstReference? hc, List.mem_append, List.mem_append]
    rcases h with h | h | h
    · exact Or.inl (Or.inl h)
    · refine (ihinner h).elim (fun h => ?_) Or.inr
      have hmem : x ∈ source := (trim_sublist source).subset h
      rcases source?_cases hc hsource with hvalue | hwritten
      · exact Or.inr ⟨_, source, hvalue, hmem⟩
      · exact Or.inl (Or.inr (Or.inl (hwritten.subset hmem)))
    · exact (ihafter _ (left_expandText_le lookup _ budget _) h).imp_left fun h => Or.inr (Or.inr h)

end CssResources
