import CssResources.Proofs.Text.Blank
import CssResources.Selector

/-!
# Selectors with the same style

A selector that has a style is a class or an element, and its name is an identifier
(`CssResources.Selector.IsNamed`). The style has this name with underscores for its dashes, and
with a capital if it is an element's. So different selectors may have one style, and which ones do
is told by their names (`CssResources.Selector.Alike`,
`CssResources.Selector.styleName?_eq_some_iff`).

| selectors | have one style if their names are the same up to |
|---|---|
| two classes | dashes and underscores |
| two elements | these, and the case of the first letter |
| a class and an element | dashes and underscores, where the class has a capital |
-/

namespace CssResources

/-! ### Dashes and underscores -/

/-- A name with an underscore for each dash. -/
def dashless (name : Text) : Text := name.map fun c => if c = '-' then '_' else c

/-- Of the characters of an identifier, the dashes are those that resource names may not have. -/
theorem resourceName_eq_dashless {name : Text}
    (h : ∀ c ∈ name, Selector.isIdentifierChar c = true) : resourceName name = dashless name := by
  refine List.map_congr_left fun c hc => ?_
  have hchar := h c hc
  by_cases hdash : c = '-'
  · subst hdash
    rfl
  · have hresource : isResourceChar c = true := by
      simp only [Selector.isIdentifierChar, hdash, beq_iff_eq, Bool.or_eq_true, or_false] at hchar
      simp only [isResourceChar, Bool.or_eq_true, beq_iff_eq]
      exact Or.inl hchar
    rw [if_pos hresource, if_neg hdash]

/-! ### Capitals -/

/-- The capital of an ASCII letter is an ASCII letter. -/
theorem isAlpha_toUpper {c : Char} (h : c.isAlpha = true) : c.toUpper.isAlpha = true := by
  have hascii : ∀ n < 128, (Char.ofNat n).isAlpha = true →
      (Char.ofNat n).toUpper.isAlpha = true := by decide +kernel
  have hrange : c.toNat ≤ 122 := (toNat_of_isAlphanum (by simp [Char.isAlphanum, h])).2
  have hc : c.toNat < 128 := by omega
  have hupper : c.isAlpha = true → c.toUpper.isAlpha = true := forall_ascii hc hascii
  exact hupper h

/-- A name that begins with a letter gets the capital of this letter. -/
theorem capitalizeFirst_resourceName {c : Char} (hc : c.isAlpha = true) (name : Text) :
    capitalizeFirst (resourceName (c :: name)) = c.toUpper :: resourceName name := by
  have hresource : isResourceChar c = true := by simp [isResourceChar, Char.isAlphanum, hc]
  have hrange : c.toNat ≤ 122 := (toNat_of_isAlphanum (by simp [Char.isAlphanum, hc])).2
  have hfirst : resourceName (c :: name) = c :: resourceName name := by
    rw [resourceName, List.map_cons, if_pos hresource, resourceName]
  rw [hfirst, capitalizeFirst, upperChar, if_pos (by omega), List.singleton_append]

/-- **Only a capital becomes a capital** when dashes become underscores. -/
theorem dashless_eq_toUpper_cons_iff {c : Char} (hc : c.isAlpha = true) {m n : Text} :
    dashless m = c.toUpper :: n ↔ ∃ m', m = c.toUpper :: m' ∧ dashless m' = n := by
  have hletter := isAlpha_toUpper hc
  cases m with
  | nil => simp [dashless]
  | cons d m =>
    have hfirst : (if d = '-' then '_' else d) = c.toUpper ↔ d = c.toUpper := by
      by_cases hd : d = '-'
      · subst hd
        rw [if_pos rfl]
        constructor <;> exact fun h => absurd (h ▸ hletter) (by decide)
      · rw [if_neg hd]
    rw [dashless, List.map_cons, List.cons.injEq, hfirst]
    constructor
    · rintro ⟨rfl, h⟩
      exact ⟨m, rfl, h⟩
    · rintro ⟨m', hm, h⟩
      obtain ⟨rfl, rfl⟩ := List.cons.inj hm
      exact ⟨rfl, h⟩

namespace Selector

/-! ### The names of selectors -/

/-- **A selector as it is read**: its name is an identifier, and an element's begins with a
letter. -/
def IsNamed : Selector → Prop
  | className name => isIdentifier name = true
  | element name => name.head?.any Char.isAlpha = true ∧ isIdentifier name = true
  | _ => True

theorem isNamed_ofText (t : Text) : (ofText t).IsNamed := by
  rw [ofText]
  unfold ofTrimmed
  split
  · trivial
  split
  · trivial
  split
  · split
    · trivial
    split
    · assumption
    · trivial
  · split
    · trivial
    split
    · rename_i h
      exact Bool.and_eq_true_iff.mp h
    · trivial

theorem isIdentifierChar_of_mem {name : Text} (h : isIdentifier name = true) {c : Char}
    (hc : c ∈ name) : isIdentifierChar c = true := by
  cases name with
  | nil => simp at hc
  | cons d name =>
    obtain ⟨hstart, hrest⟩ := Bool.and_eq_true_iff.mp h
    rcases List.mem_cons.mp hc with rfl | hc
    · simp only [isIdentifierStart, Bool.or_eq_true, beq_iff_eq] at hstart
      simp only [isIdentifierChar, Char.isAlphanum, Bool.or_eq_true, beq_iff_eq]
      rcases hstart with (h | h) | h <;> simp [h]
    · exact List.all_eq_true.mp hrest c hc

/-- The style of a class has its name up to dashes. -/
theorem styleName?_className {name : Text} (h : (className name).IsNamed) :
    (className name).styleName? = some (dashless name) := by
  rw [styleName?, resourceName_eq_dashless fun c => isIdentifierChar_of_mem h]

/-- The style of an element has its name up to dashes, with a capital. -/
theorem IsNamed.exists_styleName?_element {name : Text} (h : (element name).IsNamed) :
    ∃ c rest, name = c :: rest ∧ c.isAlpha = true ∧
      (element name).styleName? = some (c.toUpper :: dashless rest) := by
  cases name with
  | nil => simp [IsNamed] at h
  | cons c rest =>
    have hc : c.isAlpha = true := h.1
    refine ⟨c, rest, rfl, hc, ?_⟩
    rw [styleName?, capitalizeFirst_resourceName hc, resourceName_eq_dashless fun d hd =>
      isIdentifierChar_of_mem h.2 (List.mem_cons_of_mem _ hd)]

/-! ### Selectors with one style -/

/-- **Selectors that have one style**, by their names. -/
inductive Alike : Selector → Selector → Prop where
  /-- Two classes whose names are the same up to dashes and underscores. -/
  | classes {m n : Text} (h : dashless m = dashless n) : Alike (className m) (className n)
  /-- Two elements whose names are the same up to these, and to the case of the first letter. -/
  | elements {c d : Char} {m n : Text} (hfirst : c.toUpper = d.toUpper)
    (h : dashless m = dashless n) : Alike (element (c :: m)) (element (d :: n))
  /-- A class with a capital, and an element. -/
  | classElement {c : Char} {m n : Text} (h : dashless m = dashless n) :
    Alike (className (c.toUpper :: m)) (element (c :: n))
  /-- An element, and a class with a capital. -/
  | elementClass {c : Char} {m n : Text} (h : dashless m = dashless n) :
    Alike (element (c :: m)) (className (c.toUpper :: n))

/-- **Selectors have one style exactly if they are alike.** -/
theorem styleName?_eq_some_iff {s t : Selector} (hs : s.IsNamed) (ht : t.IsNamed) {name : Text}
    (h : s.styleName? = some name) : t.styleName? = some name ↔ Alike s t := by
  cases s with
  | root => simp [styleName?] at h
  | rejected cause => simp [styleName?] at h
  | className m =>
    rw [styleName?_className hs] at h
    obtain rfl := Option.some.inj h
    cases t with
    | root => exact ⟨fun ht => by simp [styleName?] at ht, fun ht => by cases ht⟩
    | rejected cause => exact ⟨fun ht => by simp [styleName?] at ht, fun ht => by cases ht⟩
    | className n =>
      rw [styleName?_className ht, Option.some.injEq]
      constructor
      · exact fun heq => .classes heq.symm
      · intro halike
        cases halike with
        | classes heq => exact heq.symm
    | element n =>
      obtain ⟨c, n, rfl, hc, hstyle⟩ := ht.exists_styleName?_element
      rw [hstyle, Option.some.injEq, eq_comm, dashless_eq_toUpper_cons_iff hc]
      constructor
      · rintro ⟨m, rfl, heq⟩
        exact .classElement heq
      · intro halike
        cases halike with
        | classElement heq => exact ⟨_, rfl, heq⟩
  | element m =>
    obtain ⟨c, m, rfl, hc, hstyle⟩ := hs.exists_styleName?_element
    rw [hstyle] at h
    obtain rfl := Option.some.inj h
    cases t with
    | root => exact ⟨fun ht => by simp [styleName?] at ht, fun ht => by cases ht⟩
    | rejected cause => exact ⟨fun ht => by simp [styleName?] at ht, fun ht => by cases ht⟩
    | className n =>
      rw [styleName?_className ht, Option.some.injEq, dashless_eq_toUpper_cons_iff hc]
      constructor
      · rintro ⟨n, rfl, heq⟩
        exact .elementClass heq.symm
      · intro halike
        cases halike with
        | elementClass heq => exact ⟨_, rfl, heq.symm⟩
    | element n =>
      obtain ⟨d, n, rfl, -, hother⟩ := ht.exists_styleName?_element
      rw [hother, Option.some.injEq, List.cons.injEq]
      constructor
      · rintro ⟨hfirst, heq⟩
        exact .elements hfirst.symm heq.symm
      · intro halike
        cases halike with
        | elements hfirst heq => exact ⟨hfirst.symm, heq.symm⟩

end Selector

end CssResources
