import CssResources.Proofs.OrderedMap
import CssResources.Proofs.Text.Blank
import CssResources.Proofs.Variable.Machine
import Mathlib.Algebra.Order.BigOperators.Group.List
import Mathlib.Algebra.Order.Ring.Nat

/-!
# What the budget bounds

Definitions may refer to themselves, or multiply one another, so neither the number of
substitutions nor the length of a value is bounded by the table alone. The budget bounds
both. Each substitution takes one from it, so there are no more of them than its limit; and
**each substitution pays for its growth**: what a reference is replaced by is a value of the
table, or a fallback, which is a part of the reference. With every unit of the budget worth
the longest value of the table, a value and the budget together never grow
(`CssResources.weight_expandText_add_le`).

Length is counted in characters or in the bytes of UTF-8. Both add up over the characters of
a text, which is all that is used of them (`CssResources.weight`).
-/

namespace CssResources

/-! ### Lengths that add up over characters -/

section Weight

variable (w : Char → Nat)

/-- The length of a text whose characters count as `w` says. -/
def weight (t : Text) : Nat := (t.map w).sum

@[simp] theorem weight_append (s t : Text) : weight w (s ++ t) = weight w s + weight w t := by
  simp [weight]

/-- A part of a text is no longer than the text. -/
theorem weight_le_of_sublist {s t : Text} (h : s.Sublist t) : weight w s ≤ weight w t := by
  rw [weight, weight]
  exact (h.map w).sum_le_sum fun _ _ => Nat.zero_le _

/-- Every character counts one. -/
theorem weight_one : weight (fun _ => 1) = List.length := by
  funext t
  simp [weight]

/-- Every character counts the bytes that it is written with. -/
theorem weight_utf8Size : weight Char.utf8Size = utf8Size := by
  funext t
  induction t with
  | nil => rfl
  | cons c t ih => simpa [weight, utf8Size] using ih

end Weight

/-- **The length of the longest value of a table**, however length is measured. -/
def VariableTable.longest (size : Text → Nat) (table : VariableTable) : Nat :=
  (table.values.map fun d => size d.value).foldr max 0

/-- A member of a list of numbers is no more than their maximum. -/
theorem le_foldr_max {n : Nat} {l : List Nat} (h : n ∈ l) : n ≤ l.foldr max 0 := by
  induction l with
  | nil => simp at h
  | cons m l ih =>
    rcases List.mem_cons.mp h with rfl | h
    · exact Nat.le_max_left _ _
    · exact Nat.le_trans (ih h) (Nat.le_max_right _ _)

/-- No value of a table is longer than its longest. -/
theorem VariableTable.le_longest (size : Text → Nat) {table : VariableTable} {name value : Text}
    (h : table.value? name = some value) : size value ≤ table.longest size := by
  obtain ⟨d, hd, rfl⟩ := Option.map_eq_some_iff.mp h
  exact le_foldr_max (List.mem_map_of_mem (OrderedMap.mem_values_of_get? hd))

/-! ### The growth of an expansion -/

section Growth

variable {lookup : Text → Option Text} (w : Char → Nat) {longest : Nat}

/-- **What a reference is replaced by is no longer than the reference and the longest value
together.** -/
theorem weight_source_le {t source : Text} {c : Cut} (h : firstReference? t = some c)
    (hlongest : ∀ name value, lookup name = some value → weight w value ≤ longest)
    (hsource : c.reference.source? lookup = some source) :
    weight w (trim source) ≤ weight w c.reference.written + longest := by
  have htrim : weight w (trim source) ≤ weight w source := weight_le_of_sublist w (trim_sublist _)
  rcases source?_cases h hsource with hvalue | hwritten
  · have := hlongest _ _ hvalue
    omega
  · have := weight_le_of_sublist w hwritten
    omega

/-- **A value and the budget together never grow**, where each unit of the budget is worth
the longest value of the table. -/
theorem weight_expandText_add_le
    (hlongest : ∀ name value, lookup name = some value → weight w value ≤ longest)
    (chain : List Text) (budget : Nat) (t : Text) :
    weight w (expandText lookup chain budget t).value
        + (expandText lookup chain budget t).left * longest ≤
      weight w t + budget * longest := by
  induction chain, budget, t using expandText_induction lookup with
  | verbatim chain budget t hc =>
    rw [expandText_of_none hc]
  | kept chain budget t c o hc hf ih =>
    -- a reference that is kept is as long as it was, and costs nothing
    rw [expandText_of_kept hc hf]
    conv => rhs; rw [eq_of_firstReference? hc]
    simp only [Expansion.value_append, Expansion.left_append, Obstacle.value_expansion,
      weight_append]
    omega
  | replaced chain budget t c source hc hf ihinner ihafter =>
    -- a reference that is replaced grows by the worth of the one unit that it costs
    obtain ⟨-, hsource, -⟩ := Reference.fate_eq_replaced_iff.mp hf
    have hgrowth := weight_source_le w hc hlongest hsource
    have hafter := ihafter _ (left_expandText_le lookup
      (c.reference.innerChain lookup chain) budget (trim source))
    rw [expandText_of_replaced hc hf]
    conv => rhs; rw [eq_of_firstReference? hc]
    simp only [Expansion.value_append, Expansion.left_append, weight_append, Nat.succ_mul]
    omega

/-- **A value resolved is no longer than it was, and the longest value of the table for each
substitution.** -/
theorem weight_resolve_le (table : VariableTable) (limit : Nat) (raw : Text) :
    weight w (resolve table.value? limit raw).value ≤
      weight w raw + limit * table.longest (weight w) := by
  have hlongest : ∀ name value, table.value? name = some value →
      weight w value ≤ table.longest (weight w) :=
    fun _ _ hvalue => VariableTable.le_longest (weight w) hvalue
  have h := weight_expandText_add_le w hlongest [] limit raw
  exact Nat.le_trans (Nat.le_add_right _ _) h

end Growth

/-! ### The theorem -/

/-- **Resolving a value stays within its limit.** Whatever the table, the machine that
substitutes step by step comes to rest at the resolved value; at no point of its run is
the budget overdrawn, or are more substitutions made than the limit; and the value resolved
is no longer than the value given and the longest value of the table, once for each
substitution that the limit allows. -/
theorem resolve_within_limit (table : VariableTable) (limit : Nat) (raw : Text) :
    (∃ steps, ∀ n ≥ steps,
        ((Machine.step table.value?)^[n] (Machine.start limit raw)).outcome? =
          some (resolve table.value? limit raw)) ∧
      (∀ n, 0 ≤ ((Machine.step table.value?)^[n] (Machine.start limit raw)).budget ∧
        ((Machine.step table.value?)^[n] (Machine.start limit raw)).substitutions ≤ limit) ∧
      (resolve table.value? limit raw).value.length ≤
        raw.length + limit * table.longest List.length ∧
      utf8Size (resolve table.value? limit raw).value ≤
        utf8Size raw + limit * table.longest utf8Size := by
  refine ⟨?_, ?_, ?_, ?_⟩
  · exact Machine.exists_run_outcome?_eq table.value? limit raw
  · intro n
    have hbalanced : ((Machine.step table.value?)^[n] (Machine.start limit raw)).Balanced limit :=
      (Machine.balanced_start limit raw).run n
    obtain ⟨hnonneg, hspent⟩ := hbalanced
    exact ⟨hnonneg, by omega⟩
  · have h := weight_resolve_le (fun _ => 1) table limit raw
    rwa [weight_one] at h
  · have h := weight_resolve_le Char.utf8Size table limit raw
    rwa [weight_utf8Size] at h

end CssResources
