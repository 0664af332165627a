import CssResources.Proofs.Checked
import CssResources.Proofs.OrderedMap
import CssResources.Variable.Table

/-!
# The table of custom properties with an index

A table can be kept together with the **positions** of its names
(`CssResources.IndexedTable`), so that no name has to be looked for among the entries. What is
read at a position is only right as long as the two parts agree, and a position may lead to no
entry at all.

They always agree. A table with an index stands for one without
(`CssResources.IndexedTable.Represents`): it has the same entries, and the index has for each
name that was defined **the position of its entry and nothing else**. A definition keeps this, in
either of its two branches.

| | with the index | in `CssResources.VariableTable` |
|---|---|---|
| a name that is there | the entry at its position is replaced | `CssResources.putEntry_eq_set` |
| a new name | it goes to the end, at the next position | `CssResources.putEntry_of_not_mem` |

So definitions, however many, never ask for a position that is not there, and what is read in the
end is what was defined last (`CssResources.IndexedTable.exists_ofDefinitions`). It does not matter
for any of this how names are hashed.
-/

namespace CssResources

/-! ### Where a value is written -/

section Entries

variable {κ ν : Type} [DecidableEq κ] {k : κ} {es : List (κ × ν)}

/-- **A key that is there is written at its position.** -/
theorem putEntry_eq_set {position : Nat} (hes : (es.map Prod.fst).Nodup)
    (h : (es.map Prod.fst)[position]? = some k) (v : ν) :
    putEntry k v es = es.set position (k, v) := by
  induction es generalizing position with
  | nil => simp at h
  | cons e es ih =>
    obtain ⟨k', v'⟩ := e
    obtain ⟨hk', hes⟩ := List.nodup_cons.mp hes
    cases position with
    | zero =>
      obtain rfl : k' = k := Option.some.inj h
      exact if_pos rfl
    | succ position =>
      rw [List.map_cons, List.getElem?_cons_succ] at h
      have hne : k' ≠ k := fun heq => hk' (heq ▸ List.mem_of_getElem? h)
      rw [putEntry, if_neg hne, ih hes h, List.set_cons_succ]

/-- **A new key is written at the end.** -/
theorem putEntry_of_not_mem (h : k ∉ es.map Prod.fst) (v : ν) :
    putEntry k v es = es ++ [(k, v)] := by
  induction es with
  | nil => rfl
  | cons e es ih =>
    obtain ⟨k', v'⟩ := e
    rw [List.map_cons, List.mem_cons, not_or] at h
    rw [putEntry, if_neg (Ne.symm h.1), ih h.2, List.cons_append]

end Entries

/-- The positions in a list with one more element. -/
theorem getElem?_concat_eq_some_iff {α : Type} {l : List α} {a b : α} {position : Nat} :
    (l ++ [a])[position]? = some b ↔
      l[position]? = some b ∨ position = l.length ∧ a = b := by
  rw [List.getElem?_append]
  split
  · rename_i hlt
    simp [Nat.ne_of_lt hlt]
  · rename_i hge
    have hnone : l[position]? = none := List.getElem?_eq_none (Nat.le_of_not_lt hge)
    rw [hnone, List.getElem?_singleton]
    grind

/-- **The table of custom properties that are defined one after the other.** -/
def VariableTable.ofDefinitions (ds : List (Text × Definition)) : VariableTable :=
  ds.foldl (fun table d => table.define d.1 d.2.value d.2.line) ∅

/-! ### Tables with an index -/

section Index

variable [Hashable Text]

/-- **Custom properties in order of first definition, and the positions of their names.** -/
structure IndexedTable where
  /-- The names with what they are defined as. -/
  entries : List (Text × Definition) := []
  /-- The position of a name among the entries. -/
  index : Std.HashMap Text Nat := {}

namespace IndexedTable

/-- **Defines a custom property.** A name that the index has is defined anew at its position; any
other one gets the next position. -/
def define (x : IndexedTable) (name value : Text) (line : Nat) : Except Fault IndexedTable :=
  match x.index[name]? with
  | some position => do
    let existing ← elementAt x.entries position
    return { x with entries := x.entries.set position (existing.1, ⟨value, line⟩) }
  | none =>
    return {
      entries := x.entries ++ [(name, ⟨value, line⟩)]
      index := x.index.insert name x.entries.length }

/-- The value of a custom property, read at the position of its name. -/
def value? (x : IndexedTable) (name : Text) : Except Fault (Option Text) :=
  match x.index[name]? with
  | some position => do
    let entry ← elementAt x.entries position
    return some entry.2.value
  | none => return none

/-- The number of custom properties. -/
def size (x : IndexedTable) : Nat := x.entries.length

/-- Defines custom properties, one after the other. -/
def defineAll (x : IndexedTable) (ds : List (Text × Definition)) : Except Fault IndexedTable :=
  ds.foldlM (fun x d => x.define d.1 d.2.value d.2.line) x

/-- The table of custom properties that are defined one after the other. -/
def ofDefinitions (ds : List (Text × Definition)) : Except Fault IndexedTable := defineAll {} ds

/-! ### Tables with and without an index -/

/-- **A table with an index stands for one without.** -/
structure Represents (x : IndexedTable) (table : VariableTable) : Prop where
  /-- They have the same entries. -/
  entries : x.entries = table.entries
  /-- The index has each name at its position, and no other position. -/
  index : ∀ (name : Text) (position : Nat),
    x.index[name]? = some position ↔ table.keys[position]? = some name

namespace Represents

variable {x : IndexedTable} {table : VariableTable} {name : Text} {position : Nat}

theorem empty : Represents {} ∅ where
  entries := rfl
  index := by simp

/-- A name that is not in the index is not in the table. -/
theorem not_mem_keys (h : x.Represents table) (hname : x.index[name]? = none) :
    name ∉ table.keys := fun hmem => by
  obtain ⟨position, hposition⟩ := List.getElem?_of_mem hmem
  rw [(h.index name position).mpr hposition] at hname
  simp at hname

/-- **A position in the index leads to the entry of its name.** -/
theorem exists_elementAt (h : x.Represents table) (hname : x.index[name]? = some position) :
    ∃ d, elementAt x.entries position = .ok (name, d) ∧ table.get? name = some d := by
  have hkey := (h.index name position).mp hname
  rw [OrderedMap.keys, List.getElem?_map, Option.map_eq_some_iff] at hkey
  obtain ⟨⟨k, d⟩, hentry, rfl⟩ := hkey
  refine ⟨d, elementAt_of_getElem? (h.entries ▸ hentry), ?_⟩
  exact OrderedMap.get?_eq_some_iff.mpr (List.mem_of_getElem? hentry)

/-- **A definition is made in both tables.** -/
theorem exists_define (h : x.Represents table) (name value : Text) (line : Nat) :
    ∃ y, x.define name value line = .ok y ∧ y.Represents (table.define name value line) := by
  cases hname : x.index[name]? with
  | some position =>
    -- the keys stay as they are, and with them their positions
    have hkey := (h.index name position).mp hname
    obtain ⟨d, hentry, -⟩ := h.exists_elementAt hname
    refine ⟨{ x with entries := x.entries.set position (name, ⟨value, line⟩) }, ?_, ?_, ?_⟩
    · rw [define, hname]
      simp only [hentry, ok_bind]
      rfl
    · rw [h.entries]
      exact (putEntry_eq_set table.nodup hkey _).symm
    · rw [VariableTable.define, OrderedMap.keys_insert, if_pos (List.mem_of_getElem? hkey)]
      exact h.index
  | none =>
    -- the keys get one more, at the position that the index gets
    have hkey := h.not_mem_keys hname
    refine ⟨⟨x.entries ++ [(name, ⟨value, line⟩)], x.index.insert name x.entries.length⟩, ?_, ?_,
      fun other position => ?_⟩
    · rw [define, hname]
      rfl
    · rw [h.entries]
      exact (putEntry_of_not_mem hkey _).symm
    · have hlength : x.entries.length = table.keys.length := by
        rw [h.entries, OrderedMap.keys, List.length_map]
      rw [VariableTable.define, OrderedMap.keys_insert, if_neg hkey, Std.HashMap.getElem?_insert,
        hlength, getElem?_concat_eq_some_iff, ← h.index other position]
      by_cases hother : name = other
      · subst hother
        simp [hname, eq_comm]
      · simp [hother]

/-- **Definitions are made in both tables.** -/
theorem exists_defineAll (h : x.Represents table) (ds : List (Text × Definition)) :
    ∃ y, x.defineAll ds = .ok y ∧ y.Represents (table.write ds) := by
  induction ds generalizing x table with
  | nil => exact ⟨x, rfl, h⟩
  | cons d ds ih =>
    obtain ⟨y, hy, hrep⟩ := h.exists_define d.1 d.2.value d.2.line
    obtain ⟨z, hz, hrest⟩ := ih hrep
    refine ⟨z, ?_, hrest⟩
    rw [defineAll, List.foldlM_cons, hy, ok_bind]
    exact hz

/-- **A value is found in both tables.** -/
theorem value?_eq (h : x.Represents table) (name : Text) :
    x.value? name = .ok (table.value? name) := by
  cases hname : x.index[name]? with
  | some position =>
    obtain ⟨d, hentry, hd⟩ := h.exists_elementAt hname
    rw [IndexedTable.value?, hname, VariableTable.value?, hd]
    simp only [hentry, ok_bind]
    rfl
  | none =>
    have hnone : table.get? name = none := by
      rw [Option.eq_none_iff_forall_ne_some]
      intro d hd
      exact h.not_mem_keys hname
        (List.mem_map_of_mem (f := Prod.fst) (OrderedMap.get?_eq_some_iff.mp hd))
    rw [IndexedTable.value?, hname, VariableTable.value?, hnone]
    rfl

/-- **The index and the entries tell the same positions.** -/
theorem index_iff (h : x.Represents table) (name : Text) (position : Nat) :
    x.index[name]? = some position ↔ (x.entries[position]?).map Prod.fst = some name := by
  rw [h.index, h.entries, OrderedMap.keys, List.getElem?_map]

end Represents

/-- **A table with an index keeps the last definition of each name.** However often custom
properties are defined, each name has one entry, in order of first definition, with what it was
defined as last; this is what is read by name; and the index has exactly the positions of the
entries. It stands for the table without an index, where the same is read. -/
theorem exists_ofDefinitions (ds : List (Text × Definition)) :
    ∃ x, ofDefinitions ds = .ok x ∧ x.Represents (VariableTable.ofDefinitions ds) ∧
      x.entries.map (fun e => (e.1, some e.2)) =
        (ds.map Prod.fst).eraseDups.map (fun name => (name, lastValue? name ds)) ∧
      (∀ name,
        x.value? name = .ok ((lastValue? name ds).map Definition.value) ∧
          (VariableTable.ofDefinitions ds).value? name =
            (lastValue? name ds).map Definition.value) ∧
      x.size = (ds.map Prod.fst).eraseDups.length ∧
      ∀ (name : Text) (position : Nat),
        x.index[name]? = some position ↔ (x.entries[position]?).map Prod.fst = some name := by
  obtain ⟨x, hx, h⟩ := Represents.empty.exists_defineAll ds
  have hkeys : x.entries.map Prod.fst = (ds.map Prod.fst).eraseDups := by
    rw [h.entries]
    exact OrderedMap.keys_write_empty ds
  have hvalue (name : Text) : (VariableTable.ofDefinitions ds).value? name =
      (lastValue? name ds).map Definition.value :=
    congrArg (Option.map Definition.value) (OrderedMap.get?_write_empty ds name)
  refine ⟨x, hx, h, ?_, fun name => ⟨?_, hvalue name⟩, ?_, h.index_iff⟩
  · rw [← hkeys, List.map_map]
    refine List.map_congr_left fun e he => ?_
    rw [h.entries] at he
    rw [Function.comp_apply, ← OrderedMap.get?_write_empty, OrderedMap.get?_eq_some_iff.mpr he]
  · rw [h.value?_eq]
    exact congrArg Except.ok (hvalue name)
  · rw [size, ← hkeys, List.length_map]

end IndexedTable

end Index

end CssResources
