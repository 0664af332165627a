import CssResources.Proofs.Number.Characters
import CssResources.Proofs.Number.Rounding
import CssResources.Proofs.Text.Parts
import Mathlib.Data.List.TakeWhile
import Mathlib.Tactic.Ring

/-!
# Numbers are read as they were written

A decimal in positional notation is read as the number nearest to it
(`CssResources.Binary64.ofText?_positional`), so the text of a number is read as that number
(`CssResources.Binary64.ofText?_toText`). There always is a decimal to write: with as many places as
the least unit has, each number is a decimal itself (`CssResources.Binary64.nearest_shortest`).

A numeral with a very small power of ten is read as zero without a computation, which is the number
nearest to it (`CssResources.Numeral.toBinary64_eq_nearest`).
-/

namespace CssResources

/-! ### Digits -/

theorem natOfDigits_natText (n : Nat) : natOfDigits (natText n) = n :=
  Nat.ofDigitChars_ten_toDigits

/-- The digits in front count as often as the power of ten that those behind have places. -/
theorem natOfDigits_append (s t : Text) :
    natOfDigits (s ++ t) = natOfDigits s * 10 ^ t.length + natOfDigits t := by
  have hfrom : ∀ (t : Text) (n : Nat),
      t.foldl (fun n c => 10 * n + (c.toNat - '0'.toNat)) n =
        n * 10 ^ t.length + natOfDigits t := by
    intro t
    induction t with
    | nil => simp [natOfDigits]
    | cons c t ih =>
      intro n
      rw [natOfDigits, List.foldl_cons, List.foldl_cons, ih, ih, List.length_cons, pow_succ]
      ring
  rw [natOfDigits, List.foldl_append, hfrom]
  rfl

/-- Zeros in front change no number. -/
theorem natOfDigits_natTextPadded (width n : Nat) : natOfDigits (natTextPadded width n) = n := by
  have hzeros : ∀ k, natOfDigits (List.replicate k '0') = 0 := fun k =>
    Nat.ofDigitChars_replicate_zero
  rw [natTextPadded, List.leftpad, natOfDigits_append, hzeros, natOfDigits_natText, Nat.zero_mul,
    Nat.zero_add]

theorem length_natTextPadded {width n : Nat} (hwidth : 0 < width) (h : n < 10 ^ width) :
    (natTextPadded width n).length = width := by
  have hlength : (natText n).length ≤ width :=
    (Nat.length_toDigits_le_iff (by decide) hwidth).mpr h
  rw [natTextPadded, List.length_leftpad, Nat.max_eq_left hlength]

theorem isDigit_of_mem_natText {n : Nat} {c : Char} (h : c ∈ natText n) : c.isDigit = true :=
  Nat.isDigit_of_mem_toDigits (by decide) (by decide) h

theorem isDigit_of_mem_natTextPadded {width n : Nat} {c : Char} (h : c ∈ natTextPadded width n) :
    c.isDigit = true := by
  rw [natTextPadded, List.leftpad] at h
  rcases List.mem_append.mp h with h | h
  · rw [List.eq_of_mem_replicate h]
    decide
  · exact isDigit_of_mem_natText h

/-- A positional decimal begins with a digit. -/
theorem exists_positional_eq_cons (n places : Nat) :
    ∃ c t, positional n places = c :: t ∧ c.isDigit = true := by
  have hfirst : ∀ n, ∃ c t, natText n = c :: t ∧ c.isDigit = true := fun n => by
    obtain ⟨c, t, hn⟩ := List.exists_cons_of_ne_nil (Nat.toDigits_ne_nil (n := n) (b := 10))
    exact ⟨c, t, hn, isDigit_of_mem_natText (n := n) (by rw [natText, hn]; simp)⟩
  rw [positional]
  split
  · exact hfirst n
  · obtain ⟨c, t, hn, hc⟩ := hfirst (n / Nat.pow 10 places)
    exact ⟨c, _, by rw [hn, List.cons_append], hc⟩

/-! ### Positional decimals -/

namespace Numeral

/-- **A positional decimal is read as its digits**, with the power of ten of its places. -/
theorem ofText?_positional (n places : Nat) :
    ofText? (positional n places) = some ⟨n, -(places : Int)⟩ := by
  rw [positional]
  split
  · rename_i hplaces
    have hdigits : ∀ c ∈ natText n, c.isDigit = true := fun _ => isDigit_of_mem_natText
    have hwhole : (natText n).takeWhile Char.isDigit = natText n :=
      List.takeWhile_eq_self_iff.mpr hdigits
    have hrest : (natText n).dropWhile Char.isDigit = [] := List.dropWhile_eq_nil_iff.mpr hdigits
    have hne : (natText n).isEmpty = false := by simp [natText]
    simp [ofText?, hwhole, hrest, hne, exponent?, natOfDigits_natText, hplaces]
  · rename_i hplaces
    have hpos : 0 < 10 ^ places := Nat.pow_pos (by decide)
    have hwhole : ∀ c ∈ natText (n / 10 ^ places), c.isDigit = true := fun _ =>
      isDigit_of_mem_natText
    have hfraction : ∀ c ∈ natTextPadded places (n % 10 ^ places), c.isDigit = true := fun _ =>
      isDigit_of_mem_natTextPadded
    have hpoint : ∀ c ∈ ('.' :: natTextPadded places (n % 10 ^ places)).head?,
        c.isDigit = false := by
      intro c hc
      obtain rfl : '.' = c := Option.some.inj hc
      decide
    have hlength : (natTextPadded places (n % 10 ^ places)).length = places :=
      length_natTextPadded (Nat.pos_of_ne_zero hplaces) (Nat.mod_lt n hpos)
    have hn : n / 10 ^ places * 10 ^ places + n % 10 ^ places = n := Nat.div_add_mod' n _
    have hne : (natText (n / 10 ^ places)).isEmpty = false := by simp [natText]
    rw [Nat.pow_eq, ofText?, takeWhile_append_stop hwhole hpoint,
      dropWhile_append_stop hwhole hpoint]
    simp only [List.takeWhile_eq_self_iff.mpr hfraction, List.dropWhile_eq_nil_iff.mpr hfraction,
      hne, exponent?, natOfDigits_append, natOfDigits_natText, natOfDigits_natTextPadded, hlength,
      hn, Bool.false_and, Bool.false_eq_true, if_false, Option.map_some, Int.zero_sub]

/-- A number with far fewer digits than places is less than half a unit. -/
theorem two_mul_one_lt_of_lt {n places : Nat} (h : 400 + n.log2 < places) :
    2 * (n * Binary64.one) < 10 ^ places := by
  obtain ⟨k, hk, hone, -⟩ := Binary64.exists_one_eq
  calc 2 * (n * Binary64.one)
      < 2 * (2 ^ (n.log2 + 1) * 2 ^ k) := by
        rw [hone]
        exact Nat.mul_lt_mul_of_pos_left
          (Nat.mul_lt_mul_of_pos_right Nat.lt_log2_self (Nat.two_pow_pos k)) (by decide)
    _ = 2 ^ (n.log2 + 1 + k + 1) := by ring
    _ ≤ 2 ^ (3 * places) := Nat.pow_le_pow_right (by decide) (by omega)
    _ = 8 ^ places := by rw [Nat.pow_mul]
    _ ≤ 10 ^ places := Nat.pow_le_pow_left (by decide) places

/-- **A numeral with places is read as the number nearest to it.** -/
theorem toBinary64_eq_nearest (negative : Bool) (n places : Nat) :
    toBinary64 negative ⟨n, -(places : Int)⟩ = .nearest negative n (10 ^ places) := by
  rw [toBinary64]
  dsimp only
  split
  · rename_i hn
    rw [hn]
    exact (Binary64.nearest_of_isRepresentable negative (Nat.pow_pos (by decide)) (by simp)
      Binary64.isRepresentable_zero).symm
  · rw [if_neg (by omega)]
    split
    · rename_i hsmall
      exact (Binary64.nearest_of_lt negative (two_mul_one_lt_of_lt (by omega))).symm
    · have hexponent : (-(places : Int)).toNat = 0 := by omega
      have hplaces : (- -(places : Int)).toNat = places := by omega
      rw [hexponent, hplaces, Nat.pow_eq, Nat.pow_eq, pow_zero, Nat.mul_one]

end Numeral

namespace Binary64

variable {units : Nat}

theorem splitSign_of_isDigit {c : Char} (hc : c.isDigit = true) (t : Text) :
    splitSign (c :: t) = (false, c :: t) := by
  unfold splitSign
  split
  · rename_i heq
    obtain ⟨rfl, -⟩ := List.cons.inj heq
    exact absurd hc (by decide)
  · rename_i heq
    obtain ⟨rfl, -⟩ := List.cons.inj heq
    exact absurd hc (by decide)
  · rfl

theorem toLower_of_isDigit {c : Char} (hc : c.isDigit = true) : c.toLower = c := by
  delta Char.toLower
  rw [dif_neg]
  delta Char.isDigit at hc
  simp only [Bool.and_eq_true, decide_eq_true_eq, ge_iff_le, UInt32.le_iff_toNat_le] at hc ⊢
  -- the digits end before the capitals begin
  have hnine : '9'.val.toNat = 57 := rfl
  have hcapital : 'A'.val.toNat = 65 := rfl
  omega

/-- No word that is read as a number begins with a digit. -/
theorem lowerAscii_ne_of_isDigit {c : Char} (hc : c.isDigit = true) (t : Text) {word : Text}
    (hword : word ∈ ["inf".toList, "infinity".toList, "nan".toList]) :
    lowerAscii (c :: t) ≠ word := by
  intro heq
  have hletters : ["inf".toList, "infinity".toList, "nan".toList].all
      (fun word => word.head?.all fun d => !d.isDigit) = true := by decide
  have hfirst := List.all_eq_true.mp hletters word hword
  rw [← heq, lowerAscii, List.map_cons, toLower_of_isDigit hc, List.head?_cons, Option.all_some,
    hc] at hfirst
  cases hfirst

/-- What begins with a digit is neither a word nor has a sign. -/
theorem ofText?_of_isDigit {c : Char} (hc : c.isDigit = true) (t : Text) :
    ofText? (c :: t) = (Numeral.ofText? (c :: t)).map (·.toBinary64 false) ∧
      ofText? ('-' :: c :: t) = (Numeral.ofText? (c :: t)).map (·.toBinary64 true) := by
  have hinf := lowerAscii_ne_of_isDigit hc t (by simp : "inf".toList ∈ _)
  have hinfinity := lowerAscii_ne_of_isDigit hc t (by simp : "infinity".toList ∈ _)
  have hnan := lowerAscii_ne_of_isDigit hc t (by simp : "nan".toList ∈ _)
  constructor
  · rw [ofText?, splitSign_of_isDigit hc]
    dsimp only
    rw [if_neg (not_or.mpr ⟨hinf, hinfinity⟩), if_neg hnan]
  · rw [ofText?, splitSign]
    dsimp only
    rw [if_neg (not_or.mpr ⟨hinf, hinfinity⟩), if_neg hnan]

/-- **A positional decimal is read as the number nearest to it.** -/
theorem ofText?_positional (n places : Nat) :
    ofText? (positional n places) = some (nearest false n (10 ^ places)) ∧
      ofText? ('-' :: positional n places) = some (nearest true n (10 ^ places)) := by
  obtain ⟨c, t, heq, hc⟩ := exists_positional_eq_cons n places
  have hread := ofText?_of_isDigit hc t
  rw [← heq, Numeral.ofText?_positional, Option.map_some, Option.map_some,
    Numeral.toBinary64_eq_nearest, Numeral.toBinary64_eq_nearest] at hread
  exact hread

/-! ### The shortest decimal -/

/-- A decimal that may be written reads back. -/
theorem nearest_of_decimalWith? {n places : Nat} (h : decimalWith? units places = some n) :
    nearest false n (10 ^ places) = finite false units := by
  rw [decimalWith?] at h
  split at h
  · rename_i hreads
    obtain rfl := Option.some.inj h
    rw [Bool.and_eq_true] at hreads
    exact beq_iff_eq.mp hreads.1
  · split at h
    · rename_i hreads
      obtain rfl := Option.some.inj h
      exact beq_iff_eq.mp hreads
    · cases h

/-- With the places of the least unit a number is a decimal itself. -/
theorem exists_decimalWith? (h : IsRepresentable units) :
    ∃ places < 1075, (decimalWith? units places).isSome = true := by
  obtain ⟨k, hk, hone, -⟩ := exists_one_eq
  have hpow : (10 : Nat) ^ k = 5 ^ k * one := by
    rw [hone, ← Nat.mul_pow]
  have hunits : units * 10 ^ k = units * 5 ^ k * one := by rw [hpow, Nat.mul_assoc]
  have hreads : readsBack units (units * 5 ^ k) k = true := by
    refine beq_iff_eq.mpr (nearest_of_isRepresentable false (Nat.pow_pos (by decide)) ?_ h)
    rw [Nat.pow_eq, hunits]
  refine ⟨k, hk, ?_⟩
  rw [decimalWith?]
  rw [Nat.pow_eq, hunits, Nat.mul_div_cancel _ one_pos, Nat.mul_mod_left, hreads]
  simp [one_pos]

/-- **The decimal that is written reads back.** -/
theorem nearest_shortest (h : IsRepresentable units) :
    nearest false (shortest units).1 (10 ^ (shortest units).2) = finite false units := by
  obtain ⟨places, hplaces, hsome⟩ := exists_decimalWith? h
  cases hfound : (List.range 1075).findSome? fun places =>
      (decimalWith? units places).map fun n => (n, places) with
  | none =>
    rw [List.findSome?_eq_none_iff] at hfound
    have hnone := hfound places (List.mem_range.mpr hplaces)
    rw [Option.map_eq_none_iff] at hnone
    rw [hnone] at hsome
    cases hsome
  | some p =>
    obtain ⟨places, -, hp⟩ := List.exists_of_findSome?_eq_some hfound
    obtain ⟨n, hn, rfl⟩ := Option.map_eq_some_iff.mp hp
    have hshortest : shortest units = (n, places) := by rw [shortest, hfound, Option.getD_some]
    rw [hshortest]
    exact nearest_of_decimalWith? hn

/-! ### Texts of numbers -/

/-- **It is a number of its size**, if it is finite. -/
structure IsNumber (x : Binary64) : Prop where
  /-- The units are those of a number. -/
  isRepresentable : ∀ {negative : Bool} {units : Nat}, x = finite negative units →
    IsRepresentable units

theorem isNumber_nan : nan.IsNumber := ⟨fun h => by cases h⟩

theorem isNumber_infinite (negative : Bool) : (infinite negative).IsNumber :=
  ⟨fun h => by cases h⟩

theorem isNumber_nearest (negative : Bool) {num den : Nat} (hden : 0 < den) :
    (nearest negative num den).IsNumber := by
  refine ⟨fun {negative' units} hnearest => ?_⟩
  obtain ⟨rfl, -⟩ := nearest_eq_finite negative hnearest
  exact isRepresentable_of_nearest hden hnearest

/-- **The text of a number is read as the number.** -/
theorem ofText?_toText {x : Binary64} (h : x.IsNumber) : ofText? x.toText = some x := by
  cases x with
  | nan => decide
  | infinite negative => cases negative <;> decide
  | finite negative units =>
    have hwritten := nearest_shortest (h.isRepresentable rfl)
    rw [toText_eq_writtenWith, writtenWith]
    generalize shortest units = decimal at hwritten
    obtain ⟨n, places⟩ := decimal
    have hread := ofText?_positional n places
    rw [hwritten, (nearest_eq_finite true hwritten).2] at hread
    cases negative with
    | false => exact hread.1
    | true => exact hread.2

end Binary64

end CssResources
