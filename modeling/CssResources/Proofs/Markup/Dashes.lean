import CssResources.Resource.Document

/-!
# A comment's text has single dashes

`CssResources.shortenDashes` halves the dashes of a text until no two of them are in a row.
This file says what comes of it in one pass: `CssResources.squeezeDashes` leaves out each
dash before which another one stands, and the loop ends with this text
(`CssResources.shortenDashes_eq_squeezeDashes`), since halving never takes away the last dash
of a run.

The pass goes through a text in pieces as long as no run of dashes lies across their border
(`CssResources.squeezeDashes_append`), and it does not matter if it comes before the marks of
a text are written as entities or after it (`CssResources.squeezeDashes_substitute`), since no
entity holds a dash. So what stands in a comment is the element of a name and a value whose
own runs of dashes are single dashes.
-/

namespace CssResources

/-! ### One pass -/

/-- **The text with each run of dashes shortened to its last one.** -/
def squeezeDashes : Text → Text
  | [] => []
  | c :: t => if c = '-' ∧ t.head? = some '-' then squeezeDashes t else c :: squeezeDashes t

@[simp] theorem squeezeDashes_nil : squeezeDashes [] = [] := rfl

theorem squeezeDashes_cons (c : Char) (t : Text) :
    squeezeDashes (c :: t) =
      if c = '-' ∧ t.head? = some '-' then squeezeDashes t else c :: squeezeDashes t := rfl

/-- Two dashes are in a row where a dash comes before a text that begins with one. -/
theorem hasDashPair_cons (c : Char) (t : Text) :
    hasDashPair (c :: t) = (decide (c = '-' ∧ t.head? = some '-') || hasDashPair t) := by
  rw [hasDashPair.eq_def]
  split
  · rename_i heq
    obtain ⟨rfl, rfl⟩ := List.cons.inj heq
    rfl
  · rename_i hne heq
    obtain ⟨rfl, rfl⟩ := List.cons.inj heq
    have hborder : ¬(c = '-' ∧ t.head? = some '-') := by
      rintro ⟨rfl, hhead⟩
      obtain ⟨rest, rfl⟩ := List.head?_eq_some_iff.mp hhead
      exact hne rest rfl rfl
    rw [decide_eq_false hborder, Bool.false_or]
  · rename_i heq
    exact absurd heq (by simp)

/-- The first character stays. -/
theorem head?_squeezeDashes (t : Text) : (squeezeDashes t).head? = t.head? := by
  induction t with
  | nil => rfl
  | cons c t ih =>
    rw [squeezeDashes_cons]
    split
    · rename_i h
      obtain ⟨rfl, hhead⟩ := h
      rw [ih, hhead, List.head?_cons]
    · rfl

/-- **No two dashes are in a row after the pass.** -/
theorem hasDashPair_squeezeDashes (t : Text) : hasDashPair (squeezeDashes t) = false := by
  induction t with
  | nil => rfl
  | cons c t ih =>
    rw [squeezeDashes_cons]
    split
    · exact ih
    · rename_i h
      rw [← head?_squeezeDashes] at h
      rw [hasDashPair_cons, ih, decide_eq_false h, Bool.false_or]

/-- A text without two dashes in a row stays as it is. -/
theorem squeezeDashes_of_not_hasDashPair {t : Text} (h : hasDashPair t = false) :
    squeezeDashes t = t := by
  induction t with
  | nil => rfl
  | cons c t ih =>
    obtain ⟨hborder, ht⟩ := Bool.or_eq_false_iff.mp ((hasDashPair_cons c t).symm.trans h)
    rw [squeezeDashes_cons, if_neg (of_decide_eq_false hborder), ih ht]

/-! ### The loop ends with it -/

/-- Halving its dashes leaves the first character of a text. -/
theorem head?_halveDashes (t : Text) : (halveDashes t).head? = t.head? := by
  fun_cases halveDashes t <;> rfl

/-- **Halving the dashes does not change what the pass makes of a text**: of each run at
least one is left. -/
theorem squeezeDashes_halveDashes (t : Text) :
    squeezeDashes (halveDashes t) = squeezeDashes t := by
  fun_induction halveDashes t with
  | case1 t ih =>
    -- of two dashes the second one decides, with what comes after it
    rw [squeezeDashes_cons, head?_halveDashes, ih, ← squeezeDashes_cons]
    exact (if_pos ⟨rfl, rfl⟩).symm
  | case2 c t _ ih => rw [squeezeDashes_cons, head?_halveDashes, ih, ← squeezeDashes_cons]
  | case3 => rfl

/-- **The loop and the pass make the same of a text.** -/
theorem shortenDashes_eq_squeezeDashes (t : Text) : shortenDashes t = squeezeDashes t := by
  fun_induction shortenDashes t with
  | case1 t _ ih => rw [ih, squeezeDashes_halveDashes]
  | case2 t h => exact (squeezeDashes_of_not_hasDashPair (Bool.eq_false_iff.mpr h)).symm

/-! ### Pieces of a text -/

/-- **The pass goes through two texts one by one** if no run of dashes goes on from the first
into the second. -/
theorem squeezeDashes_append {s t : Text} (h : s.getLast? ≠ some '-' ∨ t.head? ≠ some '-') :
    squeezeDashes (s ++ t) = squeezeDashes s ++ squeezeDashes t := by
  induction s with
  | nil => rfl
  | cons c s ih =>
    cases s with
    | nil =>
      have hborder : ¬(c = '-' ∧ t.head? = some '-') := by
        rintro ⟨rfl, hhead⟩
        exact h.elim (fun hlast => hlast rfl) fun hne => hne hhead
      rw [List.singleton_append, squeezeDashes_cons, if_neg hborder]
      simp [squeezeDashes_cons]
    | cons d s =>
      rw [List.getLast?_cons_cons] at h
      rw [List.cons_append, squeezeDashes_cons, squeezeDashes_cons, ih h, List.cons_append,
        List.head?_cons, List.head?_cons]
      split <;> rfl

/-- A text without dashes has no two in a row. -/
theorem not_hasDashPair_of_not_mem {t : Text} (h : '-' ∉ t) : hasDashPair t = false := by
  induction t with
  | nil => rfl
  | cons c t ih =>
    have hborder : ¬(c = '-' ∧ t.head? = some '-') := fun hc => h (hc.1 ▸ List.mem_cons_self ..)
    rw [hasDashPair_cons, ih fun ht => h (List.mem_cons_of_mem c ht), decide_eq_false hborder,
      Bool.false_or]

/-- A text without dashes stays as it is, whatever comes after it. -/
theorem squeezeDashes_append_of_not_mem {s t : Text} (h : '-' ∉ s) :
    squeezeDashes (s ++ t) = s ++ squeezeDashes t := by
  have hlast : s.getLast? ≠ some '-' := fun hlast => h (List.mem_of_getLast? hlast)
  rw [squeezeDashes_append (Or.inl hlast),
    squeezeDashes_of_not_hasDashPair (not_hasDashPair_of_not_mem h)]

/-- **A mark without dashes parts the runs on its two sides.** -/
theorem squeezeDashes_append_mark {s mark t : Text} (hmark : '-' ∉ mark) (hne : mark ≠ []) :
    squeezeDashes (s ++ (mark ++ t)) = squeezeDashes s ++ (mark ++ squeezeDashes t) := by
  obtain ⟨c, cs, rfl⟩ := List.exists_cons_of_ne_nil hne
  have hhead : ((c :: cs) ++ t).head? ≠ some '-' := by
    intro hhead
    exact hmark (Option.some.inj hhead ▸ List.mem_cons_self ..)
  rw [squeezeDashes_append (Or.inr hhead), squeezeDashes_append_of_not_mem hmark]

/-! ### Entities -/

/-- A substitution that does not touch dashes leaves it open if a text begins with one. -/
theorem head?_substitute_eq_dash_iff {c : Char} {entity : Text} (hc : c ≠ '-')
    (hentity : '-' ∉ entity) (hne : entity ≠ []) (t : Text) :
    (substitute c entity t).head? = some '-' ↔ t.head? = some '-' := by
  cases t with
  | nil => rfl
  | cons x t =>
    rw [substitute_cons]
    split
    · rename_i hx
      obtain ⟨e, es, rfl⟩ := List.exists_cons_of_ne_nil hne
      have he : e ≠ '-' := fun he => hentity (he ▸ List.mem_cons_self ..)
      simp [hx, hc, he]
    · simp

/-- **The pass may come before a substitution or after it.** -/
theorem squeezeDashes_substitute {c : Char} {entity : Text} (hc : c ≠ '-')
    (hentity : '-' ∉ entity) (hne : entity ≠ []) (t : Text) :
    squeezeDashes (substitute c entity t) = substitute c entity (squeezeDashes t) := by
  induction t with
  | nil => rfl
  | cons x t ih =>
    rw [substitute_cons]
    by_cases hx : x = c
    · rw [if_pos hx, squeezeDashes_append_of_not_mem hentity, ih, squeezeDashes_cons,
        if_neg fun h => hc (hx ▸ h.1), substitute_cons, if_pos hx]
    · rw [if_neg hx, List.singleton_append, squeezeDashes_cons, squeezeDashes_cons]
      simp only [head?_substitute_eq_dash_iff hc hentity hne, ih]
      split
      · rfl
      · rw [substitute_cons, if_neg hx, List.singleton_append]

theorem squeezeDashes_escapeText (t : Text) :
    squeezeDashes (escapeText t) = escapeText (squeezeDashes t) := by
  rw [escapeText, escapeText, squeezeDashes_substitute (by decide) (by decide) (by decide),
    squeezeDashes_substitute (by decide) (by decide) (by decide),
    squeezeDashes_substitute (by decide) (by decide) (by decide)]

theorem squeezeDashes_escapeAttribute (t : Text) :
    squeezeDashes (escapeAttribute t) = escapeAttribute (squeezeDashes t) := by
  rw [escapeAttribute, escapeAttribute,
    squeezeDashes_substitute (by decide) (by decide) (by decide), squeezeDashes_escapeText]

end CssResources
