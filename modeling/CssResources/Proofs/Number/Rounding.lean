import CssResources.Number.Binary64
import Mathlib.Algebra.Order.Group.Nat
import Mathlib.Tactic.Ring

/-!
# Rounding quotients

A quotient is rounded to the numbers of its size, which are the multiples of a power of two, its
**quantum** (`CssResources.Binary64.quantum`). Two things are said here about
`CssResources.Binary64.nearest`:

* what it gives is a number of a size of its own (`Binary64.isRepresentable_of_nearest`), also where
  rounding carries into the next size, and such a number is what it gives for itself
  (`Binary64.nearest_of_isRepresentable`);
* a quotient of one at most is rounded to one at most (`Binary64.nearest_of_le`), and a quotient of
  less than half a unit to zero (`Binary64.nearest_of_lt`).
-/

namespace CssResources

namespace Binary64

/-! ### Quotients of naturals -/

section Quotient

variable {num den m : Nat}

/-- A quotient of a natural number at most is rounded to that number at most. -/
theorem roundHalfEven_le (hden : 0 < den) (h : num ≤ m * den) : roundHalfEven num den ≤ m := by
  have hlow : num / den ≤ m := Nat.div_le_of_le_mul (by rwa [Nat.mul_comm])
  have hsplit := Nat.div_add_mod' num den
  rw [roundHalfEven]
  -- with a rest, the quotient is less than the number
  have hless : 0 < num % den → num / den < m := fun hrest =>
    Nat.lt_of_mul_lt_mul_right (a := den) (by omega)
  split
  · exact hlow
  · split
    · exact hless (by omega)
    · have hlast : num / den % 2 ≤ 1 := by omega
      have := hless (by omega)
      omega

/-- A natural number is rounded to itself. -/
theorem roundHalfEven_mul (hden : 0 < den) (m : Nat) : roundHalfEven (m * den) den = m := by
  rw [roundHalfEven]
  rw [Nat.mul_mod_left, if_pos (by omega), Nat.mul_div_cancel m hden]

/-- Less than a half is rounded to zero. -/
theorem roundHalfEven_of_lt (h : 2 * num < den) : roundHalfEven num den = 0 := by
  have hlt : num < den := by omega
  rw [roundHalfEven]
  rw [Nat.mod_eq_of_lt hlt, if_pos h, Nat.div_eq_of_lt hlt]

end Quotient

/-! ### The quantum -/

theorem exists_two_pow_eq {k n m : Nat} (hn : k < n) (hm : k < m) :
    ∃ j < n, Nat.pow 2 k = 2 ^ j ∧ Nat.pow 2 k < Nat.pow 2 m :=
  ⟨k, hn, rfl, Nat.pow_lt_pow_right (by decide) hm⟩

/-- One is a power of two, and less than the bound of the numbers. The exponent is left open, as the
power would be computed when a proof is checked. -/
theorem exists_one_eq : ∃ k < 1075, one = 2 ^ k ∧ one < bound := by
  delta one bound
  generalize hk : 1074 = k, hm : 2098 = m
  exact exists_two_pow_eq (by omega) (by omega)

theorem one_pos : 0 < one := by
  obtain ⟨k, -, hone, -⟩ := exists_one_eq
  rw [hone]
  exact Nat.two_pow_pos k

theorem bound_pos : 0 < bound := by
  obtain ⟨k, -, -, hbound⟩ := exists_one_eq
  exact Nat.zero_lt_of_lt hbound

/-- **The quantum of a size**: the numbers of this size are its multiples. -/
def quantum (size : Nat) : Nat := 2 ^ (size.log2 - fractionBits)

theorem quantum_pos (size : Nat) : 0 < quantum size := Nat.two_pow_pos _

/-- **A natural number of units is one of a number** if it is a multiple of the quantum of its own
size and is not past the largest. -/
structure IsRepresentable (units : Nat) : Prop where
  /-- It is not past the largest. -/
  lt_bound : units < bound
  /-- It is a multiple of the quantum of its size. -/
  quantum_dvd : quantum units ∣ units

variable {negative : Bool} {num den units : Nat}

theorem nearest_eq (negative : Bool) (num den : Nat) :
    nearest negative num den =
      if roundHalfEven (num * one) (den * quantum (num * one / den)) * quantum (num * one / den)
        < bound then
        finite negative
          (roundHalfEven (num * one) (den * quantum (num * one / den)) *
            quantum (num * one / den))
      else infinite negative := rfl

/-- The sign is kept, and makes no difference otherwise. -/
theorem nearest_eq_finite {negative' : Bool} (negative'' : Bool)
    (h : nearest negative num den = finite negative' units) :
    negative' = negative ∧ nearest negative'' num den = finite negative'' units := by
  rw [nearest_eq] at h ⊢
  split at h
  · rename_i hbound
    injection h with hsign hunits
    exact ⟨hsign.symm, by rw [if_pos hbound, hunits]⟩
  · cases h

/-- The quantum of a size divides each power of two that is no less than the size. -/
theorem quantum_dvd_two_pow {size k : Nat} (h : size ≤ 2 ^ k) : quantum size ∣ 2 ^ k := by
  refine Nat.pow_dvd_pow 2 ?_
  rcases Nat.eq_zero_or_pos size with rfl | hsize
  · simp
  · have hlog : 2 ^ size.log2 ≤ 2 ^ k := (Nat.log2_self_le (by omega)).trans h
    have hle : size.log2 ≤ k := (Nat.pow_le_pow_iff_right (by omega)).mp hlog
    omega

/-- **A quotient is rounded to a power of two at most**, if it is one at most. -/
theorem nearest_le_two_pow {k : Nat} (hden : 0 < den) (h : num * one ≤ 2 ^ k * den) :
    roundHalfEven (num * one) (den * quantum (num * one / den)) * quantum (num * one / den)
      ≤ 2 ^ k := by
  have hsize : num * one / den ≤ 2 ^ k := Nat.div_le_of_le_mul (h.trans_eq (Nat.mul_comm _ _))
  obtain ⟨m, hm⟩ := quantum_dvd_two_pow hsize
  have hround : roundHalfEven (num * one) (den * quantum (num * one / den)) ≤ m := by
    refine roundHalfEven_le (Nat.mul_pos hden (quantum_pos _)) (h.trans_eq ?_)
    rw [hm]
    ring
  rw [hm, Nat.mul_comm _ m]
  exact Nat.mul_le_mul_right _ hround

/-- **A quotient of one at most is rounded to one at most.** -/
theorem nearest_of_le (negative : Bool) (hden : 0 < den) (h : num ≤ den) :
    ∃ units ≤ one, nearest negative num den = finite negative units := by
  obtain ⟨k, -, hone, hbound⟩ := exists_one_eq
  have hle : num * one ≤ 2 ^ k * den := by
    rw [← hone, Nat.mul_comm]
    exact Nat.mul_le_mul_left one h
  have hround := nearest_le_two_pow hden hle
  rw [← hone] at hround
  exact ⟨_, hround, by rw [nearest_eq, if_pos (hround.trans_lt hbound)]⟩

/-- A quotient of less than half a unit is rounded to zero. -/
theorem nearest_of_lt (negative : Bool) (h : 2 * (num * one) < den) :
    nearest negative num den = finite negative 0 := by
  have hsize : num * one / den = 0 := Nat.div_eq_of_lt (by omega)
  have hquantum : quantum 0 = 1 := rfl
  rw [nearest_eq, hsize, hquantum, Nat.mul_one, Nat.mul_one, roundHalfEven_of_lt h,
    if_pos bound_pos]

/-! ### Numbers that are given for themselves -/

/-- **A number is what is nearest to itself.** -/
theorem nearest_of_isRepresentable (negative : Bool) (hden : 0 < den)
    (h : num * one = units * den) (hunits : IsRepresentable units) :
    nearest negative num den = finite negative units := by
  have hsize : num * one / den = units := by rw [h, Nat.mul_div_cancel _ hden]
  obtain ⟨m, hm⟩ := hunits.quantum_dvd
  have hround : roundHalfEven (num * one) (den * quantum units) = m := by
    have hnum : units * den = m * (den * quantum units) := by
      rw [Nat.mul_left_comm, Nat.mul_comm m, ← hm, Nat.mul_comm]
    rw [h, hnum]
    exact roundHalfEven_mul (Nat.mul_pos hden (quantum_pos _)) m
  rw [nearest_eq, hsize, hround, Nat.mul_comm m, ← hm, if_pos hunits.lt_bound]

theorem isRepresentable_zero : IsRepresentable 0 := ⟨bound_pos, Nat.dvd_zero _⟩

/-- **What is nearest to a quotient is a number.** If it is not of the quotient's size, rounding
has carried up to the power of two where the next size begins. -/
theorem isRepresentable_of_nearest (hden : 0 < den)
    (h : nearest negative num den = finite negative units) : IsRepresentable units := by
  have hsize : num * one / den < 2 ^ ((num * one / den).log2 + 1) := Nat.lt_log2_self
  have hle : num * one ≤ 2 ^ ((num * one / den).log2 + 1) * den := by
    have hlt := Nat.lt_mul_of_div_lt hsize hden
    omega
  have hround := nearest_le_two_pow hden hle
  rw [nearest_eq] at h
  split at h
  · rename_i hbound
    injection h with _ hunits
    rw [hunits] at hbound hround
    refine ⟨hbound, ?_⟩
    rcases Nat.lt_or_eq_of_le hround with hlt | heq
    · -- the size of the quotient is no less than that of the number
      have hquantum : quantum units ∣ quantum (num * one / den) := by
        refine Nat.pow_dvd_pow 2 ?_
        rcases Nat.eq_zero_or_pos units with rfl | hpos
        · simp
        · have hlog := (Nat.log2_lt (by omega)).mpr hlt
          omega
      exact hquantum.trans (hunits ▸ Nat.dvd_mul_left _ _)
    · rw [heq]
      exact quantum_dvd_two_pow (Nat.le_refl _)
  · cases h

end Binary64

end CssResources
