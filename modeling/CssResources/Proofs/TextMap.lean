import CssResources.Proofs.OrderedMap
import CssResources.TextMap
import Mathlib.Data.List.Sort

/-!
# A map in the order of its names is what it holds

A map is known from the values of its names (`CssResources.TextMap.ext_get?`): its entries are in
the order of their names, so there is one list of them. The values can be told from the writes that
it came from, and the two kinds of writes differ in **which of two values of a name counts**:

| the write | the value of a name after a run of writes | lemma |
|---|---|---|
| `TextMap.insert` | the last one written, or the one from before | `TextMap.get?_foldl_insert` |
| `TextMap.insertNew` | the one from before, or the first one written | `TextMap.get?_foldl_insertNew` |
-/

namespace CssResources

variable {ν : Type}

/-! ### Sorted entries -/

section Entries

variable {k : Text} {es : List (Text × ν)}

/-- A name that comes before all others is none of them. -/
theorem lookup_eq_none_of_lt (h : ∀ e ∈ es, k < e.1) : es.lookup k = none := by
  refine List.lookup_eq_none_iff.mpr fun e he => bne_iff_ne.mpr ?_
  rintro rfl
  exact List.lt_irrefl _ (h e he)

/-- **The order makes no difference to a name** that comes with one value only. -/
theorem lookup_eq_of_perm {fs : List (Text × ν)} (hperm : es.Perm fs)
    (h : ∀ e ∈ es, ∀ e' ∈ es, e.1 = k → e'.1 = k → e.2 = e'.2) : es.lookup k = fs.lookup k := by
  cases hes : es.lookup k with
  | none =>
    rw [List.lookup_eq_none_iff] at hes
    exact (List.lookup_eq_none_iff.mpr fun e he => hes e (hperm.mem_iff.mpr he)).symm
  | some v =>
    have hv := mem_of_lookup_eq_some hes
    cases hfs : fs.lookup k with
    | none => simpa using List.lookup_eq_none_iff.mp hfs _ (hperm.mem_iff.mp hv)
    | some w =>
      have hw := hperm.mem_iff.mpr (mem_of_lookup_eq_some hfs)
      exact congrArg some (h _ hv _ hw rfl rfl)

/-- The last value of a name is the first one from behind. -/
theorem lastValue?_eq_lookup_reverse (k : Text) (es : List (Text × ν)) :
    lastValue? k es = es.reverse.lookup k := by
  induction es using List.reverseRecOn with
  | nil => rfl
  | append_singleton es e ih =>
    rw [lastValue?_concat, ih, List.reverse_concat, lookup_cons_eq]

/-- Of a name that comes only once, the last value is the only one. -/
theorem lastValue?_eq_lookup (h : (es.map Prod.fst).Nodup) : lastValue? k es = es.lookup k := by
  have hreverse : (es.reverse.map Prod.fst).Nodup := by
    rwa [List.map_reverse, List.nodup_reverse]
  rw [lastValue?_eq_lookup_reverse]
  refine Option.ext fun v => ?_
  rw [lookup_eq_some_iff_of_nodup hreverse, lookup_eq_some_iff_of_nodup h, List.mem_reverse]

theorem SortedEntries.nodup (h : SortedEntries es) : (es.map Prod.fst).Nodup := by
  have hsorted : (es.map Prod.fst).Pairwise (· < ·) := List.pairwise_map.mpr h
  refine hsorted.imp ?_
  rintro k _ hlt rfl
  exact List.lt_irrefl k hlt

/-- **A name is found with the value written**, the others with the ones they had. -/
theorem lookup_alterEntry (h : SortedEntries es) (k j : Text) (f : Option ν → ν) :
    (alterEntry k f es).lookup j = if k = j then some (f (es.lookup k)) else es.lookup j := by
  induction es with
  | nil => rw [alterEntry, lookup_cons_eq, List.lookup_nil, List.lookup_nil]
  | cons e es ih =>
    obtain ⟨k', v'⟩ := e
    obtain ⟨hfirst, hes⟩ := List.pairwise_cons.mp h
    rw [alterEntry]
    split
    · rename_i hk
      subst hk
      rw [lookup_cons_eq, lookup_cons_eq, lookup_cons_eq, if_pos rfl]
      split <;> rfl
    · rename_i hk
      split
      · -- the name is new, as it comes before the first one
        rename_i hlt
        have hnone : ((k', v') :: es).lookup k = none := by
          refine lookup_eq_none_of_lt fun e he => ?_
          rcases List.mem_cons.mp he with rfl | he
          · exact hlt
          · exact List.lt_trans hlt (hfirst e he)
        rw [lookup_cons_eq, hnone]
      · rw [lookup_cons_eq, lookup_cons_eq, lookup_cons_eq, ih hes, if_neg (Ne.symm hk)]
        by_cases hj : k = j
        · subst hj
          rw [if_neg (Ne.symm hk), if_pos rfl, if_pos rfl]
        · rw [if_neg hj, if_neg hj]

end Entries

namespace TextMap

/-! ### A map from the values of its names -/

section Values

variable {m n : TextMap ν} {k : Text}

/-- **The names of a map**, in order. -/
def names (m : TextMap ν) : List Text := m.entries.map Prod.fst

@[simp] theorem get?_empty (k : Text) : (∅ : TextMap ν).get? k = none := rfl

theorem get?_eq_some_iff {v : ν} : m.get? k = some v ↔ (k, v) ∈ m.entries :=
  lookup_eq_some_iff_of_nodup m.sorted.nodup

/-- The names are those that have a value. -/
theorem mem_names_iff : k ∈ m.names ↔ ∃ v, m.get? k = some v := by
  simp only [names, List.mem_map, get?_eq_some_iff, Prod.exists, exists_and_right,
    exists_eq_right]

theorem nodup_names (m : TextMap ν) : m.names.Nodup := m.sorted.nodup

/-- **Maps with the same values are the same.** -/
theorem ext_get? (h : ∀ k, m.get? k = n.get? k) : m = n := by
  have hnodup (m : TextMap ν) : m.entries.Nodup := List.Nodup.of_map Prod.fst m.nodup_names
  have hperm : m.entries.Perm n.entries := by
    rw [List.perm_ext_iff_of_nodup (hnodup m) (hnodup n)]
    rintro ⟨k, v⟩
    rw [← get?_eq_some_iff, h k, get?_eq_some_iff]
  have hentries : m.entries = n.entries :=
    hperm.eq_of_pairwise (fun a b _ _ hab hba => absurd hba (List.lt_asymm hab)) m.sorted n.sorted
  cases m
  cases n
  simp_all

end Values

/-! ### A map from its writes -/

section Writes

variable (m : TextMap ν) (ps : List (Text × ν)) (k j : Text) (v : ν)

theorem get?_alter (f : Option ν → ν) :
    (m.alter k f).get? j = if k = j then some (f (m.get? k)) else m.get? j :=
  lookup_alterEntry m.sorted k j f

theorem get?_insert : (m.insert k v).get? j = if k = j then some v else m.get? j :=
  m.get?_alter k j _

/-- A name that has a value keeps it. -/
theorem get?_insertNew :
    (m.insertNew k v).get? j = (m.get? j).or (if k = j then some v else none) := by
  rw [insertNew, get?_alter]
  by_cases hj : k = j
  · subst hj
    cases m.get? k <;> simp
  · simp [hj]

/-- **After a run of writes** a name has the last value written, or the one from before. -/
theorem get?_foldl_insert :
    (ps.foldl (fun m p => m.insert p.1 p.2) m).get? k = (lastValue? k ps).or (m.get? k) := by
  induction ps using List.reverseRecOn with
  | nil => rfl
  | append_singleton ps p ih =>
    rw [List.foldl_concat, get?_insert, ih, lastValue?_concat]
    split <;> rfl

theorem get?_ofList : (ofList ps).get? k = lastValue? k ps := by
  rw [ofList, get?_foldl_insert, get?_empty, Option.or_none]

/-- **After a run of writes to new names** a name has the value from before, or the first one
written. -/
theorem get?_foldl_insertNew :
    (ps.foldl (fun m p => m.insertNew p.1 p.2) m).get? k = (m.get? k).or (ps.lookup k) := by
  induction ps generalizing m with
  | nil => simp
  | cons p ps ih =>
    rw [List.foldl_cons, ih, get?_insertNew, Option.or_assoc, lookup_cons_eq]
    split <;> rfl

end Writes

end TextMap

end CssResources
