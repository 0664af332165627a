import CssResources.OrderedMap
import CssResources.Proofs.Distinct

/-!
# A map in order of first insertion is what was written into it

A map is known from its keys in order and from the value of each
(`CssResources.OrderedMap.entries_eq_filterMap`), and both can be told from the writes that
it came from: the keys are those of the writes in order of first appearance, and the value of
a key is that of the last write of it (`CssResources.lastValue?`). So the map after a run of
writes is known from the run alone, `CssResources.OrderedMap.keys_write` and
`CssResources.OrderedMap.get?_write`.

Values may be changed before they are written or after (`CssResources.OrderedMap.map_insert`).
-/

namespace CssResources

variable {κ ν : Type} [DecidableEq κ]

/-! ### Association lists -/

section Entries

variable [BEq κ] [LawfulBEq κ] {k : κ} {es : List (κ × ν)}

omit [DecidableEq κ] in
theorem mem_of_lookup_eq_some {v : ν} (h : es.lookup k = some v) : (k, v) ∈ es := by
  obtain ⟨before, after, rfl, -⟩ := List.lookup_eq_some_iff.mp h
  simp

/-- **A key that comes only once is found with the value beside it.** -/
theorem lookup_eq_some_iff_of_nodup (h : (es.map Prod.fst).Nodup) {v : ν} :
    es.lookup k = some v ↔ (k, v) ∈ es := by
  induction es with
  | nil => simp
  | cons e es ih =>
    obtain ⟨k', v'⟩ := e
    obtain ⟨hfirst, hes⟩ := List.nodup_cons.mp h
    rw [lookup_cons_eq, List.mem_cons, Prod.mk.injEq]
    split
    · rename_i hkey
      subst hkey
      have hnot : (k', v) ∉ es := fun hmem => hfirst (List.mem_map.mpr ⟨_, hmem, rfl⟩)
      simp [hnot, eq_comm]
    · rename_i hkey
      simp [Ne.symm hkey, ih hes]

/-- The value of a key, when each value is changed. -/
theorem lookup_map {μ : Type} (k : κ) (f : ν → μ) (es : List (κ × ν)) :
    (es.map fun e => (e.1, f e.2)).lookup k = (es.lookup k).map f := by
  induction es with
  | nil => rfl
  | cons e es ih =>
    rw [List.map_cons, lookup_cons_eq, ih, lookup_cons_eq]
    split <;> rfl

end Entries

/-! ### The last value of a key -/

/-- **The value beside the last pair of a key.** -/
def lastValue? (k : κ) (ws : List (κ × ν)) : Option ν :=
  (ws.reverse.find? fun w => w.1 = k).map Prod.snd

@[simp] theorem lastValue?_nil (k : κ) : lastValue? k ([] : List (κ × ν)) = none := rfl

/-- A value written later counts before those written earlier. -/
theorem lastValue?_append (k : κ) (ws vs : List (κ × ν)) :
    lastValue? k (ws ++ vs) = (lastValue? k vs).or (lastValue? k ws) := by
  rw [lastValue?, lastValue?, lastValue?, List.reverse_append, List.find?_append, Option.map_or]

theorem lastValue?_concat (k j : κ) (v : ν) (ws : List (κ × ν)) :
    lastValue? k (ws ++ [(j, v)]) = if j = k then some v else lastValue? k ws := by
  rw [lastValue?_append]
  by_cases h : j = k <;> simp [lastValue?, h]

/-- The last value of a key, when each value is changed. -/
theorem lastValue?_map {μ : Type} (k : κ) (f : ν → μ) (ws : List (κ × ν)) :
    lastValue? k (ws.map fun w => (w.1, f w.2)) = (lastValue? k ws).map f := by
  rw [lastValue?, ← List.map_reverse, List.find?_map, Option.map_map, lastValue?, Option.map_map]
  rfl

/-- **The last pair of a key**: after it no pair has this key. -/
theorem exists_of_lastValue? {k : κ} {v : ν} {ws : List (κ × ν)} (h : lastValue? k ws = some v) :
    ∃ before after, ws = before ++ (k, v) :: after ∧ ∀ w ∈ after, w.1 ≠ k := by
  induction ws using List.reverseRecOn with
  | nil => simp at h
  | append_singleton ws w ih =>
    rw [lastValue?_concat] at h
    split at h
    · rename_i hk
      obtain rfl := Option.some.inj h
      exact ⟨ws, [], by rw [← hk], by simp⟩
    · rename_i hk
      obtain ⟨before, after, rfl, hafter⟩ := ih h
      refine ⟨before, after ++ [w], by simp, fun w' hw' => ?_⟩
      rcases List.mem_append.mp hw' with hw' | hw'
      · exact hafter w' hw'
      · rwa [List.mem_singleton.mp hw']

/-- The last value of a key stands beside it. -/
theorem mem_of_lastValue? {k : κ} {v : ν} {ws : List (κ × ν)} (h : lastValue? k ws = some v) :
    (k, v) ∈ ws := by
  obtain ⟨before, after, rfl, -⟩ := exists_of_lastValue? h
  simp

namespace OrderedMap

/-! ### A map from its keys and values -/

/-- A key beside a value is found with it, as it comes only once. -/
theorem get?_eq_some_iff {m : OrderedMap κ ν} {k : κ} {v : ν} :
    m.get? k = some v ↔ (k, v) ∈ m.entries :=
  lookup_eq_some_iff_of_nodup m.nodup

/-- The value of a key is among the values. -/
theorem mem_values_of_get? {m : OrderedMap κ ν} {k : κ} {v : ν} (h : m.get? k = some v) :
    v ∈ m.values :=
  List.mem_map.mpr ⟨_, get?_eq_some_iff.mp h, rfl⟩

/-- **The entries of a map are its keys in order, each with its value.** -/
theorem entries_eq_filterMap (m : OrderedMap κ ν) :
    m.entries = m.keys.filterMap fun k => (m.get? k).map (k, ·) := by
  have h : ∀ es ⊆ m.entries,
      es = (es.map Prod.fst).filterMap fun k => (m.get? k).map (k, ·) := by
    intro es hes
    induction es with
    | nil => rfl
    | cons e es ih =>
      have he : m.get? e.1 = some e.2 := get?_eq_some_iff.mpr (hes (List.mem_cons_self ..))
      rw [List.map_cons, List.filterMap_cons, he, Option.map_some,
        ← ih fun _ h => hes (List.mem_cons_of_mem _ h)]
  exact h m.entries (List.Subset.refl _)

/-- **Maps with the same keys in the same order and the same values are the same.** -/
theorem ext_get? {m n : OrderedMap κ ν} (hkeys : m.keys = n.keys)
    (hget : ∀ k, m.get? k = n.get? k) : m = n := by
  refine ext_entries ?_
  rw [entries_eq_filterMap, entries_eq_filterMap, hkeys]
  simp only [hget]

/-! ### A map from its writes -/

/-- **Writes pairs into a map**, one after the other. -/
def write (m : OrderedMap κ ν) (ws : List (κ × ν)) : OrderedMap κ ν :=
  ws.foldl (fun m w => m.insert w.1 w.2) m

@[simp] theorem write_nil (m : OrderedMap κ ν) : m.write [] = m := rfl

theorem write_concat (m : OrderedMap κ ν) (ws : List (κ × ν)) (w : κ × ν) :
    m.write (ws ++ [w]) = (m.write ws).insert w.1 w.2 := by
  simp [write]

/-- **The keys after a run of writes** are those from before and those written, in order of first
appearance. -/
theorem keys_write [BEq κ] [LawfulBEq κ] (m : OrderedMap κ ν) (ws : List (κ × ν)) :
    (m.write ws).keys = (m.keys ++ ws.map Prod.fst).eraseDups := by
  induction ws using List.reverseRecOn with
  | nil =>
    have hnodup : m.keys.Nodup := m.nodup
    rw [write_nil, List.map_nil, List.append_nil, eraseDups_of_nodup hnodup]
  | append_singleton ws w ih =>
    rw [write_concat, keys_insert, ih, List.map_append, List.map_singleton, ← List.append_assoc,
      eraseDups_concat]
    simp only [List.mem_eraseDups]

/-- **The value of a key after a run of writes** is that of the last write of it, or the one from
before. -/
theorem get?_write (m : OrderedMap κ ν) (ws : List (κ × ν)) (k : κ) :
    (m.write ws).get? k = (lastValue? k ws).or (m.get? k) := by
  induction ws using List.reverseRecOn with
  | nil => rfl
  | append_singleton ws w ih =>
    rw [write_concat, get?_insert, ih, lastValue?_concat]
    split <;> rfl

theorem keys_write_empty [BEq κ] [LawfulBEq κ] (ws : List (κ × ν)) :
    (write (∅ : OrderedMap κ ν) ws).keys = (ws.map Prod.fst).eraseDups := keys_write ∅ ws

theorem get?_write_empty (ws : List (κ × ν)) (k : κ) :
    (write (∅ : OrderedMap κ ν) ws).get? k = lastValue? k ws := by
  rw [get?_write, get?_empty, Option.or_none]

theorem write_append (m : OrderedMap κ ν) (ws vs : List (κ × ν)) :
    m.write (ws ++ vs) = (m.write ws).write vs := List.foldl_append

/-- **To write the same once more changes nothing.** -/
theorem write_write_self (m : OrderedMap κ ν) (ws : List (κ × ν)) :
    (m.write ws).write ws = m.write ws := by
  refine ext_get? ?_ fun k => ?_
  · have hkeys : (m.write ws).keys.Nodup := (m.write ws).nodup
    have hwritten : ∀ k ∈ ws.map Prod.fst, k ∈ (m.write ws).keys := fun k hk => by
      rw [keys_write, List.mem_eraseDups]
      exact List.mem_append_right _ hk
    rw [keys_write, eraseDups_append_of_nodup hkeys hwritten]
  · rw [get?_write, get?_write, ← Option.or_assoc, Option.or_self]

/-- **The values after a run of writes**, key by key. -/
theorem values_write [BEq κ] [LawfulBEq κ] (ws : List (κ × ν)) :
    (write (∅ : OrderedMap κ ν) ws).values =
      (ws.map Prod.fst).eraseDups.filterMap fun k => lastValue? k ws := by
  rw [values, entries_eq_filterMap, keys_write_empty, List.map_filterMap]
  simp only [get?_write_empty, Option.map_map]
  exact congrArg (fun f => List.filterMap f _) (funext fun k => Option.map_id')

/-! ### A map after changes at several keys -/

/-- **The keys after the values of several keys were changed.** -/
theorem keys_foldl_alter [BEq κ] [LawfulBEq κ] (m : OrderedMap κ ν) (ks : List κ)
    (f : Option ν → ν) :
    (ks.foldl (fun m k => m.alter k f) m).keys = (m.keys ++ ks).eraseDups := by
  have h : (ks.foldl (fun m k => m.alter k f) m).keys = ks.foldl addOnce m.keys := by
    induction ks generalizing m with
    | nil => rfl
    | cons k ks ih =>
      rw [List.foldl_cons, ih, alter, keys_insert]
      rfl
  have hnodup : m.keys.Nodup := m.nodup
  rw [h, ← foldl_addOnce, eraseDups_of_nodup hnodup]

/-- **The values after those of several keys were changed**, each key once. -/
theorem get?_foldl_alter (m : OrderedMap κ ν) {ks : List κ} (hks : ks.Nodup) (f : Option ν → ν)
    (j : κ) :
    (ks.foldl (fun m k => m.alter k f) m).get? j =
      if j ∈ ks then some (f (m.get? j)) else m.get? j := by
  induction ks generalizing m with
  | nil => simp
  | cons k ks ih =>
    obtain ⟨hk, hks⟩ := List.nodup_cons.mp hks
    rw [List.foldl_cons, ih _ hks, alter, get?_insert]
    by_cases hj : k = j
    · subst hj
      simp [hk]
    · simp [hj, Ne.symm hj]

/-! ### A map with its values changed -/

/-- The map with each value changed. -/
def map {μ : Type} (f : ν → μ) (m : OrderedMap κ ν) : OrderedMap κ μ where
  entries := m.entries.map fun e => (e.1, f e.2)
  nodup := by
    rw [List.map_map]
    exact m.nodup

variable {μ : Type} (f : ν → μ) (m : OrderedMap κ ν)

theorem get?_map (k : κ) : (m.map f).get? k = (m.get? k).map f := lookup_map k f m.entries

/-- A value may be changed before it is written or after. -/
theorem map_insert (k : κ) (v : ν) : (m.insert k v).map f = (m.map f).insert k (f v) := by
  refine ext_entries ?_
  show (putEntry k v m.entries).map _ = putEntry k (f v) (m.entries.map _)
  induction m.entries with
  | nil => rfl
  | cons e es ih =>
    rw [List.map_cons, putEntry, putEntry]
    split
    · rfl
    · rw [List.map_cons, ih]

omit [DecidableEq κ] in
theorem size_map : (m.map f).size = m.size := List.length_map _

end OrderedMap

end CssResources
