import CssResources.Proofs.Variable.Cycles

/-!
# What a value depends on

To resolve a value is to ask the table for properties, and this file says which: none but those
that the value **reaches** (`CssResources.Reaches`), that is, the ones that it mentions itself, be
it in a fallback, and those that the values of such properties mention in their turn. Two tables
that agree there resolve the value alike, reports and all (`CssResources.expandText_congr`), so
what is defined elsewhere, or defined anew, is never seen
(`CssResources.resolve_define_of_not_reaches`).

What is reached is reached in the first of the two tables. Nothing has to be said of the second,
because an expansion that has met only properties on which the two agree has met the same ones in
both: the fates of the references are the same up to there
(`CssResources.Reference.fate_congr`), and with them the chain and the budget of the next.
-/

namespace CssResources

variable {lookup lookup' : Text → Option Text}

/-! ### Two tables -/

namespace Reference

variable {r : Reference} (h : lookup' r.name = lookup r.name)
include h

/-- The fate of a reference hangs on the one property that it names. -/
theorem fate_congr (chain : List Text) (budget : Nat) :
    r.fate lookup' chain budget = r.fate lookup chain budget := by
  rw [fate, fate, source?, source?, h]

theorem innerChain_congr (chain : List Text) :
    r.innerChain lookup' chain = r.innerChain lookup chain := by
  rw [innerChain, innerChain, h]

end Reference

/-- **An expansion asks for nothing but what is reached**: tables that agree on all that `raw`
reaches expand a text alike, if `raw` reaches all that the text mentions. -/
theorem expandText_congr {raw : Text} (hagree : ∀ m, Reaches lookup raw m → lookup' m = lookup m)
    (chain : List Text) (budget : Nat) (t : Text)
    (hraw : ∀ m, Mentions t m → Reaches lookup raw m) :
    expandText lookup' chain budget t = expandText lookup chain budget t := by
  induction chain, budget, t using expandText_induction lookup with
  | verbatim chain budget t hc =>
    rw [expandText_of_none hc, expandText_of_none hc]
  | kept chain budget t c o hc hf ih =>
    have hname := hagree _ (hraw _ (.first hc))
    have hf' := (Reference.fate_congr hname chain budget).trans hf
    rw [expandText_of_kept hc hf', expandText_of_kept hc hf, ih fun m hm => hraw m (.after hc hm)]
  | replaced chain budget t c source hc hf ihinner ihafter =>
    have hname := hagree _ (hraw _ (.first hc))
    have hf' := (Reference.fate_congr hname chain (budget + 1)).trans hf
    obtain ⟨-, hsource, -⟩ := Reference.fate_eq_replaced_iff.mp hf
    -- the source is the same in both tables, and so is what it leaves of the budget
    have hinner := ihinner fun m hm => reaches_of_mentions_source hc hsource hraw hm
    have hleft := left_expandText_le lookup (c.reference.innerChain lookup chain) budget
      (trim source)
    have hafter := ihafter _ hleft fun m hm => hraw m (.after hc hm)
    rw [expandText_of_replaced hc hf', expandText_of_replaced hc hf,
      Reference.innerChain_congr hname, hinner]
    dsimp only
    rw [hafter]

/-- A value reaches no property outside a set that has all that the value mentions and, with each
property, all that this leads to. -/
theorem Reaches.mem_of_closed {raw name : Text} {s : List Text} (h : Reaches lookup raw name)
    (hraw : ∀ m, Mentions raw m → m ∈ s)
    (hclosed : ∀ m ∈ s, ∀ next, LeadsTo lookup m next → next ∈ s) : name ∈ s := by
  obtain ⟨first, hfirst, hpath⟩ := h
  induction hpath with
  | refl => exact hraw first hfirst
  | tail _ hstep ih => exact hclosed _ ih _ hstep

/-! ### The theorem -/

/-- **A definition that a value does not reach is not seen**: whatever the property is defined as,
and whether it was defined before, the value is resolved as it was, with the same reports. -/
theorem resolve_define_of_not_reaches (table : VariableTable) (limit : Nat)
    {raw name : Text} (h : ¬Reaches table.value? raw name) (value : Text) (line : Nat) :
    resolve (table.define name value line).value? limit raw = resolve table.value? limit raw := by
  have hagree : ∀ m, Reaches table.value? raw m →
      (table.define name value line).value? m = table.value? m := by
    intro m hm
    have hne : name ≠ m := by
      rintro rfl
      exact h hm
    rw [VariableTable.value?_define, if_neg hne]
  have hexpand := expandText_congr hagree [] limit raw fun m hm => ⟨m, hm, .refl⟩
  rw [resolve, ← expandText, hexpand]
  rfl

/-- A value that mentions one of the two properties of `CssResources.roundTable` reaches no
third. -/
theorem not_reaches_roundTable : ¬Reaches roundTable.value? "var(--a)".toList "c".toList := by
  have ha : firstReference? "var(--a)".toList =
      some ⟨[], ⟨"a".toList, none, "var(--a)".toList⟩, []⟩ := by decide
  have hb : firstReference? "var(--b)".toList =
      some ⟨[], ⟨"b".toList, none, "var(--b)".toList⟩, []⟩ := by decide
  have hmentionsA : ∀ m, Mentions "var(--a)".toList m → m = "a".toList := fun m hm => by
    simpa using (mentions_iff_of_some ha m).mp hm
  have hmentionsB : ∀ m, Mentions "var(--b)".toList m → m = "b".toList := fun m hm => by
    simpa using (mentions_iff_of_some hb m).mp hm
  intro h
  refine absurd (h.mem_of_closed (s := ["a".toList, "b".toList]) ?_ ?_) (by decide)
  · exact fun m hm => List.mem_cons.mpr (Or.inl (hmentionsA m hm))
  · rintro m - next ⟨value, hvalue, hm⟩
    rw [roundTable, VariableTable.value?_define, VariableTable.value?_define] at hvalue
    split at hvalue
    · obtain rfl := Option.some.inj hvalue
      simp [hmentionsA next hm]
    · split at hvalue
      · obtain rfl := Option.some.inj hvalue
        simp [hmentionsB next hm]
      · simp [VariableTable.value?] at hvalue

theorem resolve_define_of_not_reaches_round :
    ¬Reaches roundTable.value? "var(--a)".toList "c".toList ∧
      resolve (roundTable.define "c".toList "var(--a)".toList 3).value? 2 "var(--a)".toList =
        resolve roundTable.value? 2 "var(--a)".toList :=
  ⟨not_reaches_roundTable,
    resolve_define_of_not_reaches roundTable 2 not_reaches_roundTable "var(--a)".toList 3⟩

end CssResources
