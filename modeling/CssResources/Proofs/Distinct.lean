import Mathlib.Data.List.Induction

/-!
# The distinct members of a list

`List.eraseDups` keeps the first of equal members, so the members come out in the order in which
they were met first. Reports name things in that order and once. What the library leaves open is
settled here: no member comes twice (`CssResources.nodup_eraseDups`), members met before change
nothing (`CssResources.eraseDups_append_of_subset`), and a list that takes up members **one after
the other, each once**, ends with the same (`CssResources.foldl_addOnce`).

Members are compared by any lawful `BEq`: of a list of texts there are two, by characters and by
decidable equality, and a definition may have taken either.
-/

namespace CssResources

variable {α : Type} [BEq α] [LawfulBEq α] {l l' : List α}

omit [LawfulBEq α] in
theorem eraseDups_singleton (a : α) : [a].eraseDups = [a] := by
  rw [List.eraseDups_cons, List.filter_nil, List.eraseDups_nil]

theorem eraseDups_eq_nil_iff : l.eraseDups = [] ↔ l = [] := by
  simp only [List.eq_nil_iff_forall_not_mem, List.mem_eraseDups]

/-! ### One more member -/

/-- Members that were met before change nothing. -/
theorem eraseDups_append_of_subset (h : ∀ a ∈ l', a ∈ l) :
    (l ++ l').eraseDups = l.eraseDups := by
  have hnone : l'.removeAll l = [] :=
    List.filter_eq_nil_iff.mpr fun a ha => by simp [h a ha]
  rw [List.eraseDups_append, hnone, List.eraseDups_nil, List.append_nil]

/-- A new member comes last. -/
theorem eraseDups_concat_of_not_mem {a : α} (h : a ∉ l) :
    (l ++ [a]).eraseDups = l.eraseDups ++ [a] := by
  have hkept : [a].removeAll l = [a] :=
    List.filter_eq_self.mpr fun b hb => by simpa [List.mem_singleton.mp hb] using h
  rw [List.eraseDups_append, hkept, eraseDups_singleton]

/-- One more member changes nothing if it was there, and comes last if it was not. -/
theorem eraseDups_concat (l : List α) (a : α) [Decidable (a ∈ l)] :
    (l ++ [a]).eraseDups = if a ∈ l then l.eraseDups else l.eraseDups ++ [a] := by
  split
  · rename_i ha
    exact eraseDups_append_of_subset fun b hb => by rwa [List.mem_singleton.mp hb]
  · rename_i ha
    exact eraseDups_concat_of_not_mem ha

/-! ### Lists without repetitions -/

/-- **No member comes twice.** -/
theorem nodup_eraseDups (l : List α) : l.eraseDups.Nodup := by
  induction l using List.reverseRecOn with
  | nil => exact List.nodup_nil
  | append_singleton l a ih =>
    rw [eraseDups_concat]
    split
    · exact ih
    · rename_i ha
      refine List.nodup_append.mpr ⟨ih, by simp, fun b hb c hc => ?_⟩
      rintro rfl
      exact ha (List.mem_singleton.mp hc ▸ List.mem_eraseDups.mp hb)

/-- Members that do not repeat stay as they are. -/
theorem eraseDups_of_nodup (h : l.Nodup) : l.eraseDups = l := by
  induction l using List.reverseRecOn with
  | nil => rfl
  | append_singleton l a ih =>
    obtain ⟨hl, -, hne⟩ := List.nodup_append.mp h
    have ha : a ∉ l := fun ha => hne a ha a (List.mem_singleton_self a) rfl
    rw [eraseDups_concat_of_not_mem ha, ih hl]

theorem eraseDups_eraseDups (l : List α) : l.eraseDups.eraseDups = l.eraseDups :=
  eraseDups_of_nodup (nodup_eraseDups l)

/-- Members met before leave a list without repetitions as it is. -/
theorem eraseDups_append_of_nodup (hl : l.Nodup) (h : ∀ a ∈ l', a ∈ l) :
    (l ++ l').eraseDups = l := by
  rw [eraseDups_append_of_subset h, eraseDups_of_nodup hl]

/-! ### Two lists -/

/-- The distinct ones of some members are some of the distinct ones. -/
theorem eraseDups_filter (p : α → Bool) (l : List α) :
    (l.filter p).eraseDups = l.eraseDups.filter p := by
  induction l using List.reverseRecOn with
  | nil => rfl
  | append_singleton l a ih =>
    by_cases ha : a ∈ l <;> by_cases hp : p a = true <;> simp [eraseDups_concat, ha, hp, ih]

/-- What is distinct in two lists is what is distinct in both together. -/
theorem eraseDups_eraseDups_append_eraseDups (l l' : List α) :
    (l.eraseDups ++ l'.eraseDups).eraseDups = (l ++ l').eraseDups := by
  have helem : ∀ a, l.eraseDups.elem a = l.elem a := fun a =>
    Bool.eq_iff_iff.mpr (by simp)
  rw [List.eraseDups_append, List.eraseDups_append, eraseDups_eraseDups, List.removeAll,
    List.removeAll, eraseDups_filter, eraseDups_filter, eraseDups_eraseDups]
  simp only [helem]

/-! ### Members one after the other -/

/-- Adds a member to a list that does not have it. -/
def addOnce {α : Type} [DecidableEq α] (l : List α) (a : α) : List α :=
  if a ∈ l then l else l ++ [a]

/-- **Adding one member after the other, each once, gives the distinct members.** -/
theorem foldl_addOnce [DecidableEq α] (l l' : List α) :
    l'.foldl addOnce l.eraseDups = (l ++ l').eraseDups := by
  induction l' generalizing l with
  | nil => simp
  | cons a l' ih =>
    have hadd : addOnce l.eraseDups a = (l ++ [a]).eraseDups := by
      simp only [addOnce, List.mem_eraseDups, eraseDups_concat]
    rw [List.foldl_cons, hadd, ih, List.append_assoc, List.singleton_append]

end CssResources
