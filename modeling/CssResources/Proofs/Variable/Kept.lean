import CssResources.Proofs.Variable.Spelling

/-!
# What a report says about the value

A reference that cannot be replaced stays in the value and is reported by the name of its
property, in one of three lists. This file says that the lists can be relied on: a reference to
each property that is reported **can be read in the value** (`CssResources.HoldsReferenceTo`), and
the list says why it stayed there.

| report | what is true of the property |
|---|---|
| `CssResources.Resolution.unresolved` | it is not defined |
| `CssResources.Resolution.cycles` | it is defined, as only a property with a value joins the chain |
| `CssResources.Resolution.truncated` | it is named once |

A reference may be kept far inside, in a value that stands for a reference of a value that stands
for another. All that is done to it on its way out is that texts are put before and after it, as
a value is trimmed **before** it is expanded and never after. So the reference itself is what is
carried along, with the reason why it was kept (`CssResources.Reference.Kept`).
-/

namespace CssResources

/-! ### Texts that refer to a property -/

/-- **A reference to a property is written in a text**: its opening, and one of the two marks that
may come after it. -/
def HoldsReferenceTo (name t : Text) : Prop :=
  IsVariableName name ∧ ∃ lead trail mark, isAllBlank lead = true ∧ isAllBlank trail = true ∧
    (mark = ')' ∨ mark = ',') ∧ openingText lead name trail ++ [mark] <:+: t

namespace HoldsReferenceTo

variable {name s t : Text}

/-- What is written in a part is written in the whole. -/
theorem of_infix (h : HoldsReferenceTo name s) (hst : s <:+: t) : HoldsReferenceTo name t := by
  obtain ⟨hname, lead, trail, mark, hlead, htrail, hmark, hs⟩ := h
  exact ⟨hname, lead, trail, mark, hlead, htrail, hmark, hs.trans hst⟩

/-- **A text that refers to a property holds a reference.** -/
theorem hasReference (h : HoldsReferenceTo name t) : hasReference t = true := by
  obtain ⟨hname, lead, trail, mark, hlead, htrail, hmark, before, after, rfl⟩ := h
  rw [List.append_assoc, List.append_assoc, List.singleton_append]
  refine hasReference_append ?_ before
  rw [CssResources.hasReference,
    firstOpening?_of_opening? (opening?_openingText hname hlead htrail (head?_mark hmark after))]
  rfl

/-- **A reference that is found refers to its property.** -/
theorem of_firstReference? {c : Cut} (h : firstReference? t = some c) :
    HoldsReferenceTo c.reference.name c.reference.written := by
  obtain ⟨o, d, ho, hd, hr, -⟩ := opening_closing_of_firstReference? h
  obtain ⟨hname, lead, trail, hlead, htrail, hwritten⟩ :=
    exists_eq_openingText (opening?_of_firstOpening? ho)
  obtain ⟨mark, tail, hmark, hclosing⟩ := exists_mark_of_closing? hd
  rw [hr]
  refine ⟨hname, lead, trail, mark, hlead, htrail, hmark, [], tail, ?_⟩
  rw [hwritten, hclosing, List.nil_append, List.append_assoc, List.singleton_append]

end HoldsReferenceTo

/-! ### Reports -/

/-- **The properties reported for a reason.** -/
def Expansion.reports (e : Expansion) : Obstacle → List Text
  | .cycle => e.cycles
  | .undefined => e.unresolved
  | .exhausted => e.truncated

@[simp] theorem Expansion.reports_append (d e : Expansion) (o : Obstacle) :
    (d ++ e).reports o = d.reports o ++ e.reports o := by
  cases o <;> rfl

/-- A text that stays as it is reports nothing. -/
@[simp] theorem Expansion.reports_verbatim (t : Text) (left : Nat) (o : Obstacle) :
    ({ value := t, left } : Expansion).reports o = [] := by
  cases o <;> rfl

/-- A reference that is kept is reported for the reason why it is kept, and for no other. -/
theorem Obstacle.mem_reports_expansion {name part m : Text} {budget : Nat} {o o' : Obstacle} :
    m ∈ (o.expansion name part budget).reports o' ↔ m = name ∧ o' = o := by
  cases o <;> cases o' <;> simp [Obstacle.expansion, Expansion.reports]

/-! ### References that stay in a value -/

/-- **A reference stays in a value for a reason.** It was met under a chain of properties that
have values, apart from those that were being expanded at the start. -/
structure Reference.Kept (lookup : Text → Option Text) (chain : List Text) (o : Obstacle)
    (value : Text) (r : Reference) : Prop where
  /-- The reference is written in the value. -/
  written : r.written <:+: value
  /-- What is written refers to the property. -/
  refers : HoldsReferenceTo r.name r.written
  /-- The reason why it stays. -/
  fate : ∃ inner left, r.fate lookup inner left = .kept o ∧
    ∀ m ∈ inner, m ∈ chain ∨ (lookup m).isSome

namespace Reference.Kept

variable {lookup : Text → Option Text} {chain : List Text} {o : Obstacle} {r : Reference}
  {value : Text}

/-- A reference stays in all that its value is put into. -/
theorem of_infix {whole : Text} (h : r.Kept lookup chain o value) (hvalue : value <:+: whole) :
    r.Kept lookup chain o whole :=
  ⟨h.written.trans hvalue, h.refers, h.fate⟩

/-- **The chain of what a reference is replaced by** has one property more, which has a value. -/
theorem of_innerChain {outer : Reference}
    (h : r.Kept lookup (outer.innerChain lookup chain) o value) : r.Kept lookup chain o value := by
  obtain ⟨inner, left, hfate, hinner⟩ := h.fate
  refine ⟨h.written, h.refers, inner, left, hfate, fun m hm => ?_⟩
  rcases hinner m hm with hm | hsome
  · exact (mem_innerChain_iff.mp hm).imp_right fun ⟨hname, hsome⟩ => hname ▸ hsome
  · exact Or.inr hsome

/-- A property that stays for lack of a source has no value. -/
theorem lookup_eq_none (h : r.Kept lookup chain .undefined value) : lookup r.name = none := by
  obtain ⟨inner, left, hfate, -⟩ := h.fate
  obtain ⟨-, hsource⟩ := fate_eq_undefined_iff.mp hfate
  exact (Option.or_eq_none_iff.mp hsource).1

/-- A property that stays as it is being expanded has a value, unless it was being expanded at the
start. -/
theorem mem_chain_or_isSome (h : r.Kept lookup chain .cycle value) :
    r.name ∈ chain ∨ (lookup r.name).isSome := by
  obtain ⟨inner, left, hfate, hinner⟩ := h.fate
  exact hinner _ (fate_eq_cycle_iff.mp hfate)

end Reference.Kept

/-- **What is reported stays in the value**, for the reason that is reported. -/
theorem exists_kept_of_mem_reports {lookup : Text → Option Text} {o : Obstacle} {name : Text}
    (chain : List Text) (budget : Nat) (t : Text)
    (h : name ∈ (expandText lookup chain budget t).reports o) :
    ∃ r : Reference, r.name = name ∧
      r.Kept lookup chain o (expandText lookup chain budget t).value := by
  induction chain, budget, t using expandText_induction lookup with
  | verbatim chain budget t hc =>
    rw [expandText_of_none hc] at h
    simp at h
  | kept chain budget t c o' hc hf ih =>
    rw [expandText_of_kept hc hf] at h ⊢
    rw [Expansion.reports_append, List.mem_append] at h
    rcases h with h | h
    · obtain ⟨rfl, rfl⟩ := Obstacle.mem_reports_expansion.mp h
      refine ⟨c.reference, rfl, ?_, .of_firstReference? hc, chain, budget, hf, fun m => Or.inl⟩
      rw [Expansion.value_append, Obstacle.value_expansion]
      exact List.infix_append _ _ _
    · obtain ⟨r, rfl, hr⟩ := ih h
      exact ⟨r, rfl, hr.of_infix (List.suffix_append _ _).isInfix⟩
  | replaced chain budget t c source hc hf ihinner ihafter =>
    rw [expandText_of_replaced hc hf] at h ⊢
    simp only [Expansion.reports_append, Expansion.reports_verbatim, List.nil_append,
      List.mem_append] at h
    rcases h with h | h
    -- what the reference stands for is put between the texts before and after the reference
    · obtain ⟨r, rfl, hr⟩ := ihinner h
      refine ⟨r, rfl, hr.of_innerChain.of_infix ?_⟩
      exact (List.prefix_append _ _).isInfix.trans (List.suffix_append _ _).isInfix
    · obtain ⟨r, rfl, hr⟩ := ihafter _ (left_expandText_le lookup _ budget _) h
      refine ⟨r, rfl, hr.of_infix (List.IsSuffix.isInfix ?_)⟩
      exact (List.suffix_append _ _).trans (List.suffix_append _ _)

/-! ### The theorem -/

/-- **Whatever is reported keeps its reference.** A reference to the property is written in the
value, so that the value is not complete. A property is unresolved only if it is not defined, is
on a cycle only if it is, and is reported as truncated once. -/
theorem reported_names_keep_references (table : VariableTable) (limit : Nat) (raw : Text) :
    (∀ name, name ∈ (resolve table.value? limit raw).unresolved ∨
        name ∈ (resolve table.value? limit raw).cycles ∨
        name ∈ (resolve table.value? limit raw).truncated →
      HoldsReferenceTo name (resolve table.value? limit raw).value ∧
        (resolve table.value? limit raw).isComplete = false) ∧
    (∀ name ∈ (resolve table.value? limit raw).unresolved, table.value? name = none) ∧
    (∀ name ∈ (resolve table.value? limit raw).cycles, ∃ value, table.value? name = some value) ∧
    (resolve table.value? limit raw).truncated.Nodup := by
  have hkept (o : Obstacle) (name : Text)
      (h : name ∈ (expandText table.value? [] limit raw).reports o) :
      ∃ r : Reference, r.name = name ∧
        r.Kept table.value? [] o (resolve table.value? limit raw).value :=
    exists_kept_of_mem_reports [] limit raw h
  refine ⟨fun name h => ?_, fun name h => ?_, fun name h => ?_, nodup_eraseDups _⟩
  · have hreported : ∃ o, name ∈ (expandText table.value? [] limit raw).reports o := by
      rcases h with h | h | h
      · exact ⟨.undefined, h⟩
      · exact ⟨.cycle, h⟩
      · exact ⟨.exhausted, List.mem_eraseDups.mp h⟩
    obtain ⟨o, ho⟩ := hreported
    obtain ⟨r, rfl, hr⟩ := hkept o name ho
    have hrefers := hr.refers.of_infix hr.written
    exact ⟨hrefers, by rw [Resolution.isComplete, hrefers.hasReference]; rfl⟩
  · obtain ⟨r, rfl, hr⟩ := hkept .undefined name h
    exact hr.lookup_eq_none
  · obtain ⟨r, rfl, hr⟩ := hkept .cycle name h
    refine hr.mem_chain_or_isSome.elim (fun hmem => absurd hmem List.not_mem_nil) fun hsome => ?_
    exact Option.isSome_iff_exists.mp hsome

/-- A table with a property that leads back to itself, and one that does not. -/
def loopTable : VariableTable :=
  (VariableTable.define ∅ "a".toList "var(--a)".toList 1).define "b".toList "1px".toList 2

/-- A value whose references are all kept if there is one substitution only: the first for lack of
a value, the second in what it is replaced by, and the third for lack of budget. -/
def loopUse : Text := "var( --x ) var(--a) var(--b)".toList

/-- Each of the three reports of `CssResources.loopUse`. -/
theorem mem_reports_loopUse :
    "x".toList ∈ (resolve loopTable.value? 1 loopUse).unresolved ∧
      "a".toList ∈ (resolve loopTable.value? 1 loopUse).cycles ∧
      "b".toList ∈ (resolve loopTable.value? 1 loopUse).truncated := by
  let x : Reference := ⟨"x".toList, none, "var( --x )".toList⟩
  let a : Reference := ⟨"a".toList, none, "var(--a)".toList⟩
  let b : Reference := ⟨"b".toList, none, "var(--b)".toList⟩
  have hx : firstReference? loopUse = some ⟨[], x, " var(--a) var(--b)".toList⟩ := by decide
  have ha : firstReference? " var(--a) var(--b)".toList =
      some ⟨" ".toList, a, " var(--b)".toList⟩ := by decide
  have hinner : firstReference? (trim "var(--a)".toList) = some ⟨[], a, []⟩ := by decide
  have hb : firstReference? " var(--b)".toList = some ⟨" ".toList, b, []⟩ := by decide
  have hfateX : x.fate loopTable.value? [] 1 = .kept .undefined := rfl
  have hfateA : a.fate loopTable.value? [] 1 = .replaced "var(--a)".toList := rfl
  have hfateInner : a.fate loopTable.value? (a.innerChain loopTable.value? []) 0 = .kept .cycle :=
    rfl
  have hfateB : b.fate loopTable.value? [] 0 = .kept .exhausted := rfl
  have hvalue : expandText loopTable.value? (a.innerChain loopTable.value? []) 0
      (trim "var(--a)".toList) =
      { value := "var(--a)".toList, cycles := ["a".toList], left := 0 } := by
    rw [expandText_of_kept hinner hfateInner, expandText_of_none rfl]
    rfl
  have hlast : expandText loopTable.value? [] 0 " var(--b)".toList =
      { value := " var(--b)".toList, truncated := ["b".toList], left := 0 } := by
    rw [expandText_of_kept hb hfateB, expandText_of_none rfl]
    rfl
  have hexpand : expandText loopTable.value? [] 1 loopUse =
      { value := loopUse, unresolved := ["x".toList], cycles := ["a".toList],
        truncated := ["b".toList], left := 0 } := by
    rw [expandText_of_kept hx hfateX, expandText_of_replaced ha hfateA]
    simp only [hvalue, hlast]
    rfl
  rw [resolve, ← expandText, hexpand]
  decide

theorem reported_names_keep_references_loop :
    ("x".toList ∈ (resolve loopTable.value? 1 loopUse).unresolved ∧
        loopTable.value? "x".toList = none ∧
        HoldsReferenceTo "x".toList (resolve loopTable.value? 1 loopUse).value) ∧
      ("a".toList ∈ (resolve loopTable.value? 1 loopUse).cycles ∧
        ∃ value, loopTable.value? "a".toList = some value) ∧
      "b".toList ∈ (resolve loopTable.value? 1 loopUse).truncated ∧
      HoldsReferenceTo "b".toList (resolve loopTable.value? 1 loopUse).value ∧
      (resolve loopTable.value? 1 loopUse).isComplete = false := by
  obtain ⟨hx, ha, hb⟩ := mem_reports_loopUse
  obtain ⟨hkept, hunresolved, hcycles, -⟩ := reported_names_keep_references loopTable 1 loopUse
  exact ⟨⟨hx, hunresolved _ hx, (hkept _ (Or.inl hx)).1⟩, ⟨ha, hcycles _ ha⟩, hb,
    hkept _ (Or.inr (Or.inr hb))⟩

end CssResources
