import CssResources.Variable.Reference
import CssResources.Variable.Table

/-!
# Substituting custom properties

A value is resolved by putting, for each reference, the value of the property it names,
or its fallback if the property is not defined, each resolved in its turn.

Three things leave a reference as it is written, and are reported by the property's
name: neither a value nor a fallback is there; the property is being expanded already,
so that its definition leads back to itself; or the **budget** is used up. Every
substitution takes one from the budget, which the whole resolution shares, so that
definitions that multiply one another stay bounded.

| what happens to a reference | report |
|---|---|
| it is replaced | none |
| no value, no fallback | `CssResources.Resolution.unresolved` |
| its property is being expanded | `CssResources.Resolution.cycles` |
| the budget is used up | `CssResources.Resolution.truncated` |
-/

namespace CssResources

/-! ### Expansion -/

/-- **What became of a part of a value.** -/
@[ext] structure Expansion where
  /-- The text after substitution. -/
  value : Text := []
  /-- The properties with neither a value nor a fallback, as met. -/
  unresolved : List Text := []
  /-- The properties at which a cycle was cut, as met. -/
  cycles : List Text := []
  /-- The properties not expanded for lack of budget, as met. -/
  truncated : List Text := []
  /-- The budget left. -/
  left : Nat
  deriving DecidableEq, Repr

namespace Expansion

/-- One expansion and the next; the budget left is that of the second. -/
def append (d e : Expansion) : Expansion where
  value := d.value ++ e.value
  unresolved := d.unresolved ++ e.unresolved
  cycles := d.cycles ++ e.cycles
  truncated := d.truncated ++ e.truncated
  left := e.left

instance : Append Expansion := ⟨append⟩

@[simp] theorem value_append (d e : Expansion) : (d ++ e).value = d.value ++ e.value := rfl

@[simp] theorem unresolved_append (d e : Expansion) :
    (d ++ e).unresolved = d.unresolved ++ e.unresolved := rfl

@[simp] theorem cycles_append (d e : Expansion) : (d ++ e).cycles = d.cycles ++ e.cycles := rfl

@[simp] theorem truncated_append (d e : Expansion) :
    (d ++ e).truncated = d.truncated ++ e.truncated := rfl

@[simp] theorem left_append (d e : Expansion) : (d ++ e).left = e.left := rfl

theorem append_assoc (d e f : Expansion) : d ++ e ++ f = d ++ (e ++ f) := by
  ext1 <;> simp

end Expansion

/-- **Expands the pieces of a value.** The chain holds the properties being expanded.
What an inner expansion leaves of the budget is what the pieces after it get; it is
never more than it was given (`CssResources.left_expand_le`). -/
def expand (lookup : Text → Option Text) (chain : List Text) (budget : Nat) :
    List Piece → Expansion
  | [] => { left := budget }
  | .literal t :: ps =>
    ({ value := t, left := budget } : Expansion) ++ expand lookup chain budget ps
  | .reference r :: ps =>
    if r.name ∈ chain then
      ({ value := r.written, cycles := [r.name], left := budget } : Expansion)
        ++ expand lookup chain budget ps
    else
      match (lookup r.name).or r.fallback?, budget with
      | none, b =>
        ({ value := r.written, unresolved := [r.name], left := b } : Expansion)
          ++ expand lookup chain b ps
      | some _, 0 =>
        ({ value := r.written, truncated := [r.name], left := 0 } : Expansion)
          ++ expand lookup chain 0 ps
      | some t, n + 1 =>
        let inner :=
          expand lookup (if (lookup r.name).isSome then r.name :: chain else chain) n
            (Piece.ofText (trim t))
        inner ++ expand lookup chain (min inner.left n) ps
termination_by ps => (budget, ps.length)
decreasing_by
  · exact Prod.Lex.right _ (Nat.lt_succ_self _)
  · exact Prod.Lex.right _ (Nat.lt_succ_self _)
  · exact Prod.Lex.right _ (Nat.lt_succ_self _)
  · exact Prod.Lex.right _ (Nat.lt_succ_self _)
  · exact Prod.Lex.left _ _ (Nat.lt_succ_self _)
  · exact Prod.Lex.left _ _ (Nat.lt_succ_of_le (Nat.min_le_right _ _))

/-- **An expansion never leaves more of the budget than it was given.** -/
theorem left_expand_le (lookup : Text → Option Text) (chain : List Text) (budget : Nat)
    (ps : List Piece) : (expand lookup chain budget ps).left ≤ budget := by
  fun_induction expand lookup chain budget ps with
  | case1 => exact Nat.le_refl _
  | case2 _ _ _ _ ih => exact ih
  | case3 _ _ _ _ _ ih => exact ih
  | case4 _ _ _ _ _ _ ih => exact ih
  | case5 _ _ _ _ _ _ ih => exact ih
  | case6 _ _ _ _ _ _ _ inner _ ih =>
    exact Nat.le_succ_of_le (Nat.le_trans ih (Nat.min_le_right _ _))

/-! ### Resolution -/

/-- **A value resolved.** -/
structure Resolution where
  /-- The value after substitution. -/
  value : Text
  /-- The properties with neither a value nor a fallback, as met. -/
  unresolved : List Text
  /-- The properties at which a cycle was cut, as met. -/
  cycles : List Text
  /-- The properties not expanded for lack of budget, each once. -/
  truncated : List Text
  deriving DecidableEq, Repr

/-- The number of substitutions in one resolution, unless another limit is set. -/
def defaultLimit : Nat := 256

/-- **Resolves a value** with so many substitutions at most. -/
def resolve (lookup : Text → Option Text) (limit : Nat) (raw : Text) : Resolution :=
  let e := expand lookup [] limit (Piece.ofText raw)
  { value := e.value, unresolved := e.unresolved, cycles := e.cycles,
    truncated := e.truncated.eraseDups }

namespace Resolution

/-- No reference is left. -/
def isComplete (r : Resolution) : Bool := !hasReference r.value

/-- The properties whose reference was kept, each once. -/
def keptNames (r : Resolution) : List Text := (r.unresolved ++ r.cycles ++ r.truncated).eraseDups

end Resolution

/-- Resolves a value against a table, with the usual limit. -/
def VariableTable.resolve (table : VariableTable) (raw : Text) : Resolution :=
  CssResources.resolve table.value? defaultLimit raw

end CssResources
