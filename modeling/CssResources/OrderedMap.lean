/-!
# Maps in order of first insertion

A map whose entries come in the order in which their keys were inserted first.
Inserting a key again replaces its value **at the position it has**: the last write
wins, at the place of the first. Custom properties, captured colors, styles and the
properties of a style are all kept this way.

| operation | what it does to the entries |
|---|---|
| `OrderedMap.get?` | the value beside a key (`OrderedMap.get?_insert`) |
| `OrderedMap.insert` | replaces in place, else appends (`OrderedMap.keys_insert`) |
-/

namespace CssResources

/-! ### Association lists -/

section Entries

variable {κ ν : Type} [DecidableEq κ]

/-- Replaces the value of `k` where the key stands, or appends the pair. -/
def putEntry (k : κ) (v : ν) : List (κ × ν) → List (κ × ν)
  | [] => [(k, v)]
  | (k', v') :: es => if k' = k then (k, v) :: es else (k', v') :: putEntry k v es

@[simp] theorem putEntry_nil (k : κ) (v : ν) : putEntry k v [] = [(k, v)] := rfl

/-- The keys after a write: unchanged if the key was there, else with it at the end. -/
theorem map_fst_putEntry (k : κ) (v : ν) (es : List (κ × ν)) :
    (putEntry k v es).map Prod.fst =
      if k ∈ es.map Prod.fst then es.map Prod.fst else es.map Prod.fst ++ [k] := by
  induction es with
  | nil => simp
  | cons e es ih =>
    obtain ⟨k', v'⟩ := e
    by_cases h : k' = k
    · simp [putEntry, h]
    · by_cases hm : k ∈ es.map Prod.fst
      · simp [putEntry, h, ih, hm, Ne.symm h]
      · simp [putEntry, h, ih, hm, Ne.symm h]

/-- The value beside a key is that of its first entry. -/
theorem lookup_cons_eq [BEq κ] [LawfulBEq κ] (k j : κ) (v : ν) (es : List (κ × ν)) :
    ((k, v) :: es).lookup j = if k = j then some v else es.lookup j := by
  rw [List.lookup_cons]
  by_cases h : k = j
  · simp [h]
  · simp [h, beq_eq_false_iff_ne.mpr (Ne.symm h)]

/-- A key written is found with its new value, the others with the ones they had. -/
theorem lookup_putEntry [BEq κ] [LawfulBEq κ] (k j : κ) (v : ν) (es : List (κ × ν)) :
    (putEntry k v es).lookup j = if k = j then some v else es.lookup j := by
  induction es with
  | nil => rw [putEntry, lookup_cons_eq]
  | cons e es ih =>
    obtain ⟨k', v'⟩ := e
    rw [putEntry]
    split
    · rename_i h
      subst h
      rw [lookup_cons_eq, lookup_cons_eq]
      split <;> rfl
    · rename_i h
      rw [lookup_cons_eq, lookup_cons_eq, ih]
      by_cases hj : k' = j
      · rw [if_pos hj, if_pos hj, if_neg fun hk => h (hj.trans hk.symm)]
      · rw [if_neg hj, if_neg hj]

end Entries

/-! ### The map -/

/-- **A map in order of first insertion.** -/
structure OrderedMap (κ ν : Type) where
  /-- The pairs of key and value, in order of first insertion. -/
  entries : List (κ × ν)
  /-- No key comes twice. -/
  nodup : (entries.map Prod.fst).Nodup

namespace OrderedMap

variable {κ ν : Type}

/-- The map without entries. -/
def empty : OrderedMap κ ν := ⟨[], List.nodup_nil⟩

instance : EmptyCollection (OrderedMap κ ν) := ⟨empty⟩

instance : Inhabited (OrderedMap κ ν) := ⟨empty⟩

/-- The keys in order of first insertion. -/
def keys (m : OrderedMap κ ν) : List κ := m.entries.map Prod.fst

/-- The values in the order of their keys. -/
def values (m : OrderedMap κ ν) : List ν := m.entries.map Prod.snd

/-- The number of keys. -/
def size (m : OrderedMap κ ν) : Nat := m.entries.length

@[simp] theorem entries_empty : (∅ : OrderedMap κ ν).entries = [] := rfl

@[simp] theorem keys_empty : (∅ : OrderedMap κ ν).keys = [] := rfl

/-- Two maps with the same entries are the same map. -/
theorem ext_entries {m n : OrderedMap κ ν} (h : m.entries = n.entries) : m = n := by
  cases m; cases n; simp_all

variable [DecidableEq κ]

/-- The value of a key. -/
def get? (m : OrderedMap κ ν) (k : κ) : Option ν := m.entries.lookup k

/-- **Writes a value**: at the position of its key if the map has it, else at the end. -/
def insert (m : OrderedMap κ ν) (k : κ) (v : ν) : OrderedMap κ ν where
  entries := putEntry k v m.entries
  nodup := by
    rw [map_fst_putEntry]
    split
    · exact m.nodup
    · rename_i h
      exact List.nodup_append.mpr ⟨m.nodup, by simp, by
        intro a ha b hb hab
        exact h (by simp_all)⟩

/-- Writes the value `f` makes of the one the key has. -/
def alter (m : OrderedMap κ ν) (k : κ) (f : Option ν → ν) : OrderedMap κ ν :=
  m.insert k (f (m.get? k))

@[simp] theorem get?_empty (k : κ) : (∅ : OrderedMap κ ν).get? k = none := rfl

/-- A key written is found with its new value, the others with the ones they had. -/
theorem get?_insert (m : OrderedMap κ ν) (k j : κ) (v : ν) :
    (m.insert k v).get? j = if k = j then some v else m.get? j :=
  lookup_putEntry k j v m.entries

/-- A new key goes to the end; one the map has keeps its place. -/
theorem keys_insert (m : OrderedMap κ ν) (k : κ) (v : ν) :
    (m.insert k v).keys = if k ∈ m.keys then m.keys else m.keys ++ [k] :=
  map_fst_putEntry k v m.entries

end OrderedMap

end CssResources
