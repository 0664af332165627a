import CssResources.ResourceName
import Mathlib.Data.List.Forall2

/-!
# Names with the same resource name

Resource names are made by a map that loses characters, so different names may become one. Which
ones do is told by their characters, place by place (`CssResources.resourceName_eq_iff`): they are
the same, or both become an underscore (`CssResources.LookAlike`).
-/

namespace CssResources

/-- The character is an underscore in the name of a resource. -/
def IsUnderscored (c : Char) : Prop := c = '_' ∨ isResourceChar c = false

instance : DecidablePred IsUnderscored := fun _ => inferInstanceAs (Decidable (_ ∨ _))

/-- **Characters that look alike in the names of resources.** -/
def LookAlike (c d : Char) : Prop := c = d ∨ (IsUnderscored c ∧ IsUnderscored d)

instance : DecidableRel LookAlike := fun _ _ => inferInstanceAs (Decidable (_ ∨ _))

/-- What a character becomes is an underscore exactly if it is underscored. -/
theorem ite_isResourceChar_eq_underscore_iff {c : Char} :
    (if isResourceChar c then c else '_') = '_' ↔ IsUnderscored c := by
  rw [IsUnderscored]
  split <;> simp_all

theorem ite_isResourceChar_eq_iff {c d : Char} :
    (if isResourceChar c then c else '_') = (if isResourceChar d then d else '_') ↔
      LookAlike c d := by
  constructor
  · intro h
    by_cases hc : IsUnderscored c
    · rw [ite_isResourceChar_eq_underscore_iff.mpr hc] at h
      exact Or.inr ⟨hc, ite_isResourceChar_eq_underscore_iff.mp h.symm⟩
    · have hd : ¬IsUnderscored d := fun hd =>
        hc (ite_isResourceChar_eq_underscore_iff.mp
          (h.trans (ite_isResourceChar_eq_underscore_iff.mpr hd)))
      simp only [IsUnderscored, not_or, Bool.not_eq_false] at hc hd
      rw [if_pos hc.2, if_pos hd.2] at h
      exact Or.inl h
  · rintro (rfl | ⟨hc, hd⟩)
    · rfl
    · rw [ite_isResourceChar_eq_underscore_iff.mpr hc, ite_isResourceChar_eq_underscore_iff.mpr hd]

/-- **Names have the same resource name exactly if their characters look alike**, place by
place. -/
theorem resourceName_eq_iff {m n : Text} :
    resourceName m = resourceName n ↔ List.Forall₂ LookAlike m n := by
  rw [resourceName, resourceName, ← List.forall₂_eq_eq_eq, List.forall₂_map_left_iff,
    List.forall₂_map_right_iff]
  simp only [ite_isResourceChar_eq_iff]

end CssResources
