import CssResources.Proofs.Variable.Machine

/-!
# What the limit changes

A limit is there to stop definitions that multiply one another. This file says that it does
nothing else. Two resolutions of one value with different limits go the same way until the
smaller one has no budget left for a reference that has a source; such a reference is reported as
truncated. So there are two cases, and the report tells them apart:

| truncated with the smaller limit | | lemma |
|---|---|---|
| nothing | the larger limit changes nothing | `CssResources.expandText_add` |
| something | the smaller limit was spent to the last | `CssResources.left_expandText_eq_zero` |

The second is more than that the budget was used up where the report was made: what comes after
finds nothing left either, as an expansion never gives anything back. The substitutions are
counted by the machine that makes them (`CssResources.Machine`), which counts them apart from the
budget.
-/

namespace CssResources

variable {lookup : Text → Option Text}

/-- **Where something is truncated, nothing of the budget is left.** -/
theorem left_expandText_eq_zero (chain : List Text) (budget : Nat) (t : Text)
    (h : (expandText lookup chain budget t).truncated ≠ []) :
    (expandText lookup chain budget t).left = 0 := by
  induction chain, budget, t using expandText_induction lookup with
  | verbatim chain budget t hc =>
    rw [expandText_of_none hc] at h
    exact absurd rfl h
  | kept chain budget t c o hc hf ih =>
    rw [expandText_of_kept hc hf] at h ⊢
    cases o with
    | cycle => exact ih (by simpa [Obstacle.expansion] using h)
    | undefined => exact ih (by simpa [Obstacle.expansion] using h)
    | exhausted =>
      -- the budget is used up here, and what comes after has no other
      obtain ⟨-, -, rfl⟩ := Reference.fate_eq_exhausted_iff.mp hf
      exact Nat.le_zero.mp (left_expandText_le lookup chain 0 c.after)
  | replaced chain budget t c source hc hf ihinner ihafter =>
    rw [expandText_of_replaced hc hf] at h ⊢
    simp only [Expansion.truncated_append, List.nil_append, ne_eq, List.append_eq_nil_iff,
      not_and_or, Expansion.left_append] at h ⊢
    rcases h with h | h
    · have hle := left_expandText_le lookup chain
        (expandText lookup (c.reference.innerChain lookup chain) budget (trim source)).left c.after
      rw [ihinner h] at hle ⊢
      exact Nat.le_zero.mp hle
    · exact ihafter _ (left_expandText_le lookup _ budget _) h

/-- **A limit that suffices cannot be told from a larger one.** -/
theorem resolve_eq_of_le {limit more : Nat} {raw : Text} (hle : limit ≤ more)
    (h : (resolve lookup limit raw).truncated = []) :
    resolve lookup more raw = resolve lookup limit raw := by
  obtain ⟨spare, rfl⟩ := Nat.exists_eq_add_of_le hle
  have hadd := expandText_add lookup spare [] limit raw (truncated_resolve_eq_nil_iff.mp h)
  rw [resolve, ← expandText, hadd]
  rfl

/-- **A limit that does not suffice is spent**: the machine comes to rest after as many
substitutions as the limit allows. -/
theorem Machine.exists_run_substitutions_eq {limit : Nat} {raw : Text}
    (h : (resolve lookup limit raw).truncated ≠ []) :
    ∃ steps, ∀ n ≥ steps,
      ((step lookup)^[n] (start limit raw)).outcome? = some (resolve lookup limit raw) ∧
        ((step lookup)^[n] (start limit raw)).substitutions = limit := by
  have htruncated := fun hnil => h (truncated_resolve_eq_nil_iff.mpr hnil)
  have hleft := left_expandText_eq_zero [] limit raw htruncated
  obtain ⟨steps, hsteps⟩ := exists_run_eq_atRest lookup limit raw
  refine ⟨steps, fun n hn => ?_⟩
  rw [hsteps n hn]
  refine ⟨rfl, ?_⟩
  show limit - (expandText lookup [] limit raw).left = limit
  rw [hleft, Nat.sub_zero]

/-! ### The theorem -/

/-- **A limit that suffices is invisible, and one that does not is used up.** If nothing is
truncated with a limit, every larger limit gives the same value and the same reports; if something
is, the limit was spent to the last substitution. -/
theorem limit_invisible_or_spent (table : VariableTable) (raw : Text) {limit more : Nat}
    (hle : limit ≤ more) :
    ((resolve table.value? limit raw).truncated = [] →
        resolve table.value? more raw = resolve table.value? limit raw) ∧
      ((resolve table.value? limit raw).truncated ≠ [] →
        ∃ steps, ∀ n ≥ steps,
          ((Machine.step table.value?)^[n] (Machine.start limit raw)).outcome? =
              some (resolve table.value? limit raw) ∧
            ((Machine.step table.value?)^[n] (Machine.start limit raw)).substitutions = limit) :=
  ⟨resolve_eq_of_le hle, Machine.exists_run_substitutions_eq⟩

/-- A table with one property. -/
def padTable : VariableTable := VariableTable.define ∅ "pad".toList "8px".toList 1

/-- A value that needs two substitutions. -/
def padUse : Text := "var(--pad) var(--pad)".toList

/-- One substitution leaves the second reference of `CssResources.padUse`, and two leave none. -/
theorem truncated_resolve_padUse :
    (resolve padTable.value? 1 padUse).truncated ≠ [] ∧
      (resolve padTable.value? 2 padUse).truncated = [] := by
  have hfirst : firstReference? padUse =
      some ⟨[], ⟨"pad".toList, none, "var(--pad)".toList⟩, " var(--pad)".toList⟩ := by decide
  have hsecond : firstReference? " var(--pad)".toList =
      some ⟨" ".toList, ⟨"pad".toList, none, "var(--pad)".toList⟩, []⟩ := by decide
  have hreplaced : ∀ budget, Reference.fate padTable.value? [] (budget + 1)
      ⟨"pad".toList, none, "var(--pad)".toList⟩ = .replaced "8px".toList := fun _ => rfl
  have hkept : Reference.fate padTable.value? [] 0
      ⟨"pad".toList, none, "var(--pad)".toList⟩ = .kept .exhausted := rfl
  have hvalue : firstReference? (trim "8px".toList) = none := by decide
  constructor
  · rw [ne_eq, truncated_resolve_eq_nil_iff,
      expandText_of_replaced_of_none hfirst (hreplaced 0) hvalue, expandText_of_kept hsecond hkept]
    simp [Obstacle.expansion]
  · rw [truncated_resolve_eq_nil_iff,
      expandText_of_replaced_of_none hfirst (hreplaced 1) hvalue,
      expandText_of_replaced_of_none hsecond (hreplaced 0) hvalue, expandText_of_none rfl]
    rfl

theorem limit_invisible_or_spent_pad :
    1 ≤ 2 ∧ (resolve padTable.value? 1 padUse).truncated ≠ [] ∧
      (∃ steps, ∀ n ≥ steps,
        ((Machine.step padTable.value?)^[n] (Machine.start 1 padUse)).outcome? =
            some (resolve padTable.value? 1 padUse) ∧
          ((Machine.step padTable.value?)^[n] (Machine.start 1 padUse)).substitutions = 1) ∧
      2 ≤ 256 ∧ (resolve padTable.value? 2 padUse).truncated = [] ∧
      resolve padTable.value? 256 padUse = resolve padTable.value? 2 padUse := by
  obtain ⟨hone, htwo⟩ := truncated_resolve_padUse
  have hlarger : 1 ≤ 2 := by decide
  have hdefault : 2 ≤ 256 := by decide
  exact ⟨hlarger, hone, (limit_invisible_or_spent padTable padUse hlarger).2 hone,
    hdefault, htwo, (limit_invisible_or_spent padTable padUse hdefault).1 htwo⟩

end CssResources
