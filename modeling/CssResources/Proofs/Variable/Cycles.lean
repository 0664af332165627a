import CssResources.Proofs.Variable.Mention
import Mathlib.Logic.Relation

/-!
# A cycle that is reported is there

A property leads to those that its value mentions (`CssResources.LeadsTo`), be it in a
fallback. Resolution knows nothing of this graph: it keeps a chain of the properties that are
being expanded, and reports a cycle where it meets one of them again. This file says that such
a report is never a mistake (`CssResources.isOnCycle_of_mem_cycles_resolve`): the property is
defined, and leads back to itself.

The invariant is that **every property of the chain leads to whatever the text at hand mentions**.
It would not be enough to say so of the last property of the chain, nor that neighbours in the
chain are neighbours in the graph, because the chain does not grow with a fallback while the text
does change.

A property that is used many times is not in the chain when it is met again, unless it is met
inside its own value; so a property that does not lead back to itself is never reported.
-/

namespace CssResources

/-! ### Paths in the graph of references -/

section Graph

variable (lookup : Text → Option Text)

/-- **A property is on a cycle**: in one step or more it leads back to itself. -/
def IsOnCycle (name : Text) : Prop := Relation.TransGen (LeadsTo lookup) name name

/-- **A text reaches a property**: it mentions the property, or one that leads to it. -/
def Reaches (t name : Text) : Prop :=
  ∃ first, Mentions t first ∧ Relation.ReflTransGen (LeadsTo lookup) first name

end Graph

variable {lookup : Text → Option Text} {t : Text} {c : Cut}

/-- A property that leads anywhere is defined. -/
theorem exists_value_of_transGen {name other : Text}
    (h : Relation.TransGen (LeadsTo lookup) name other) : ∃ value, lookup name = some value := by
  obtain ⟨next, ⟨value, hvalue, -⟩, -⟩ := Relation.TransGen.head'_iff.mp h
  exact ⟨value, hvalue⟩

/-- **What reaches all that a text mentions** reaches all that its sources mention. -/
theorem reaches_of_mentions_source {raw source m : Text} (hc : firstReference? t = some c)
    (hsource : c.reference.source? lookup = some source)
    (hraw : ∀ m, Mentions t m → Reaches lookup raw m) (hm : Mentions (trim source) m) :
    Reaches lookup raw m := by
  rcases mentions_source_cases hc hsource hm with hleads | ⟨-, hmentions⟩
  · obtain ⟨first, hfirst, hpath⟩ := hraw _ (.first hc)
    exact ⟨first, hfirst, hpath.tail hleads⟩
  · exact hraw m hmentions

/-! ### The reports of an expansion -/

/-- **What an expansion reports as a cycle is one**, if the properties of the chain lead to all that
the text mentions; and what reaches all that the text mentions reaches the cycle. -/
theorem isOnCycle_of_mem_cycles_expandText {raw name : Text} (chain : List Text) (budget : Nat)
    (t : Text) (hchain : ChainRelates (Relation.TransGen (LeadsTo lookup)) chain t)
    (hraw : ∀ m, Mentions t m → Reaches lookup raw m)
    (h : name ∈ (expandText lookup chain budget t).cycles) :
    Reaches lookup raw name ∧ IsOnCycle lookup name := by
  induction chain, budget, t using expandText_induction lookup with
  | verbatim chain budget t hc =>
    rw [expandText_of_none hc] at h
    exact absurd h List.not_mem_nil
  | kept chain budget t c o hc hf ih =>
    rw [expandText_of_kept hc hf, Expansion.cycles_append, List.mem_append] at h
    rcases h with h | h
    · cases o with
      | cycle =>
        obtain rfl : name = c.reference.name := List.mem_singleton.mp h
        exact ⟨hraw _ (.first hc), hchain.self hc (Reference.fate_eq_cycle_iff.mp hf)⟩
      | undefined => exact absurd h List.not_mem_nil
      | exhausted => exact absurd h List.not_mem_nil
    · exact ih (hchain.after hc) (fun m hm => hraw m (.after hc hm)) h
  | replaced chain budget t c source hc hf ihinner ihafter =>
    obtain ⟨-, hsource, -⟩ := Reference.fate_eq_replaced_iff.mp hf
    rw [expandText_of_replaced hc hf, Expansion.cycles_append, Expansion.cycles_append,
      List.mem_append, List.mem_append] at h
    rcases h with h | h | h
    · exact absurd h List.not_mem_nil
    -- inside the source a step of the graph is the shortest path there is
    · have hinner := hchain.source (fun _ _ _ => .trans) (fun _ _ => .single) hc hsource
      exact ihinner hinner (fun m hm => reaches_of_mentions_source hc hsource hraw hm) h
    · exact ihafter _ (left_expandText_le lookup _ budget _) (hchain.after hc)
        (fun m hm => hraw m (.after hc hm)) h

/-! ### The theorem -/

/-- **Cycle reports are sound.** A property reported is defined, is reached from the value, and
leads back to itself. So nothing is reported on a table without cycles, and a property that is on
none is not reported however often the value, and the values of other properties, use it. -/
theorem isOnCycle_of_mem_cycles_resolve (table : VariableTable) (limit : Nat) (raw : Text) :
    (∀ name ∈ (resolve table.value? limit raw).cycles,
        (∃ value, table.value? name = some value) ∧ Reaches table.value? raw name ∧
          IsOnCycle table.value? name) ∧
      ((∀ name, ¬IsOnCycle table.value? name) → (resolve table.value? limit raw).cycles = []) ∧
      ∀ name, ¬IsOnCycle table.value? name → name ∉ (resolve table.value? limit raw).cycles := by
  have hsound : ∀ name ∈ (resolve table.value? limit raw).cycles,
      Reaches table.value? raw name ∧ IsOnCycle table.value? name := fun name h =>
    isOnCycle_of_mem_cycles_expandText [] limit raw (.nil _ raw) (fun m hm => ⟨m, hm, .refl⟩) h
  refine ⟨fun name h => ?_, fun hnone => ?_, fun name hname h => hname (hsound name h).2⟩
  · obtain ⟨hreaches, hcycle⟩ := hsound name h
    exact ⟨exists_value_of_transGen hcycle, hreaches, hcycle⟩
  · exact List.eq_nil_iff_forall_not_mem.mpr fun name h => hnone name (hsound name h).2

/-- Two properties that lead to each other. -/
def roundTable : VariableTable :=
  VariableTable.define (VariableTable.define ∅ "a".toList "var(--b)".toList 1)
    "b".toList "var(--a)".toList 2

example : (resolve roundTable.value? 2 "var(--a)".toList).cycles = ["a".toList] := by cbv

end CssResources
