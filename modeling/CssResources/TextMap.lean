import CssResources.Text.Basic

/-!
# Maps in the order of their names

A map from texts whose entries come in the order of their keys, by code points. It has
one form for what it holds, however it was built: the order in which entries were
inserted leaves no trace. The custom properties given from outside a stylesheet are kept
this way.
-/

namespace CssResources

/-! ### The order of texts -/

/-- Of two different texts one comes first. -/
theorem lt_of_not_lt_of_ne {s t : Text} (h : ¬s < t) (hne : s ≠ t) : t < s :=
  Classical.byContradiction fun h' =>
    hne (List.le_antisymm (List.not_lt.mp h') (List.not_lt.mp h))

/-! ### Sorted entries -/

section Entries

variable {ν : Type}

/-- Entries in the order of their keys, no key twice. -/
def SortedEntries (es : List (Text × ν)) : Prop := es.Pairwise fun a b => a.1 < b.1

/-- Writes the value that `f` makes of the one that the key has, at the key's place in the
order. -/
def alterEntry (k : Text) (f : Option ν → ν) : List (Text × ν) → List (Text × ν)
  | [] => [(k, f none)]
  | (k', v') :: es =>
    if k = k' then (k, f (some v')) :: es
    else if k < k' then (k, f none) :: (k', v') :: es
    else (k', v') :: alterEntry k f es

/-- A key after a write is the one written or was there before. -/
theorem fst_of_mem_alterEntry {k : Text} {f : Option ν → ν} {es : List (Text × ν)}
    {e : Text × ν} (h : e ∈ alterEntry k f es) : e.1 = k ∨ ∃ e' ∈ es, e'.1 = e.1 := by
  induction es with
  | nil => simp_all [alterEntry]
  | cons d es ih =>
    obtain ⟨k', v'⟩ := d
    rw [alterEntry] at h
    split at h
    · rcases List.mem_cons.mp h with rfl | h
      · exact Or.inl rfl
      · exact Or.inr ⟨e, by simp [h], rfl⟩
    · split at h
      · rcases List.mem_cons.mp h with rfl | h
        · exact Or.inl rfl
        · exact Or.inr ⟨e, h, rfl⟩
      · rcases List.mem_cons.mp h with rfl | h
        · exact Or.inr ⟨_, by simp, rfl⟩
        · exact (ih h).imp id fun ⟨e', he', heq⟩ => ⟨e', by simp [he'], heq⟩

/-- **A write keeps the order.** -/
theorem SortedEntries.alterEntry {k : Text} {f : Option ν → ν} {es : List (Text × ν)}
    (h : SortedEntries es) : SortedEntries (alterEntry k f es) := by
  induction es with
  | nil => simp [CssResources.alterEntry, SortedEntries]
  | cons d es ih =>
    obtain ⟨k', v'⟩ := d
    obtain ⟨hd, hes⟩ := List.pairwise_cons.mp h
    rw [CssResources.alterEntry]
    split
    · subst_vars
      exact List.pairwise_cons.mpr ⟨hd, hes⟩
    · rename_i hne
      split
      · rename_i hlt
        refine List.pairwise_cons.mpr ⟨fun e he => ?_, h⟩
        rcases List.mem_cons.mp he with rfl | he
        · exact hlt
        · exact List.lt_trans hlt (hd e he)
      · rename_i hnlt
        refine List.pairwise_cons.mpr ⟨fun e he => ?_, ih hes⟩
        rcases fst_of_mem_alterEntry he with hk | ⟨e', he', hk⟩
        · simpa [hk] using lt_of_not_lt_of_ne hnlt hne
        · simpa [hk] using hd e' he'

end Entries

/-! ### The map -/

/-- **A map in the order of its names.** -/
structure TextMap (ν : Type) where
  /-- The pairs of name and value in the order of names. -/
  entries : List (Text × ν)
  /-- The names increase. -/
  sorted : SortedEntries entries

namespace TextMap

variable {ν : Type}

/-- The map without entries. -/
def empty : TextMap ν := ⟨[], List.Pairwise.nil⟩

instance : EmptyCollection (TextMap ν) := ⟨empty⟩

instance : Inhabited (TextMap ν) := ⟨empty⟩

/-- Writes the value that `f` makes of the one that the name has. -/
def alter (m : TextMap ν) (k : Text) (f : Option ν → ν) : TextMap ν :=
  ⟨alterEntry k f m.entries, m.sorted.alterEntry⟩

/-- **Gives a name a value**, in place of the one it may have. -/
def insert (m : TextMap ν) (k : Text) (v : ν) : TextMap ν := m.alter k fun _ => v

/-- **Gives a name a value if it has none.** -/
def insertNew (m : TextMap ν) (k : Text) (v : ν) : TextMap ν := m.alter k (·.getD v)

/-- The map of pairs; of equal names the last pair counts. -/
def ofList (ps : List (Text × ν)) : TextMap ν := ps.foldl (fun m p => m.insert p.1 p.2) ∅

/-- The value of a name. -/
def get? (m : TextMap ν) (k : Text) : Option ν := m.entries.lookup k

end TextMap

end CssResources
