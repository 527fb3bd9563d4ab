import BeamCalc.Number.Decimal
import Mathlib.Tactic.Ring

/-!
# Rounding to a pattern

What is nearest to a quotient depends on its value only (`Magnitude.nearest_mul_left`), and a finite
pattern is nearest to its own size (`Magnitude.nearest_units`). A decimal of any size is such a
quotient: also where `Decimal.nearest` needs no arithmetic it gives what the arithmetic would give
(`Decimal.nearest_eq`). So zeros at the end of the digits make no difference
(`Decimal.nearest_reduced`).
-/

set_option autoImplicit false
set_option relaxedAutoImplicit false

namespace BeamCalc.Number

namespace Magnitude

variable {pattern numerator denominator factor : Nat}

theorem divideToEven_mul_right (hfactor : 0 < factor) (numerator denominator : Nat) :
    divideToEven (factor * numerator) (factor * denominator) =
      divideToEven numerator denominator := by
  have htwice : 2 * (factor * (numerator % denominator)) =
      factor * (2 * (numerator % denominator)) := by ring
  unfold divideToEven
  simp only [Nat.mul_div_mul_left _ _ hfactor, Nat.mul_mod_mul_left, htwice,
    Nat.mul_lt_mul_left hfactor]

/-- What is nearest to a quotient does not depend on how the quotient is written. -/
theorem nearest_mul_left (hfactor : 0 < factor) (numerator denominator : Nat) :
    nearest (factor * numerator) (factor * denominator) = nearest numerator denominator := by
  unfold nearest
  simp only [Nat.mul_div_mul_left _ _ hfactor, Nat.mul_assoc, divideToEven_mul_right hfactor]

theorem divideToEven_mul (hfactor : 0 < factor) (number : Nat) :
    divideToEven (number * factor) factor = number := by
  unfold divideToEven
  simp only [Nat.mul_div_cancel _ hfactor, Nat.mul_mod_left, Nat.mul_zero, if_pos hfactor]

/-- What has 53 binary digits and a spacing of a power of two is a magnitude by itself. -/
theorem nearest_mul_pow (hpattern : pattern < infinity) {digits doublings : Nat}
    (hdigits : digits < 2 * fractionSize) (hnormal : fractionSize ≤ digits ∨ doublings = 0)
    (hsplit : pattern = doublings * fractionSize + digits) :
    nearest (digits * Nat.pow 2 doublings) 1 = pattern := by
  have hexcess : (digits * Nat.pow 2 doublings).log2 - 52 = doublings := by
    change digits < 2 ^ 53 at hdigits
    rcases hnormal with hle | rfl
    · have hpos : 0 < digits * 2 ^ doublings :=
        Nat.mul_pos (Nat.lt_of_lt_of_le (by decide) hle) (Nat.two_pow_pos _)
      have hlog : (digits * 2 ^ doublings).log2 = 52 + doublings := by
        rw [Nat.log2_eq_iff hpos.ne', Nat.pow_add, Nat.add_right_comm, Nat.pow_add]
        exact ⟨Nat.mul_le_mul_right _ hle, Nat.mul_lt_mul_of_pos_right hdigits (Nat.two_pow_pos _)⟩
      change (digits * 2 ^ doublings).log2 - 52 = doublings
      omega
    · have hlog : digits.log2 ≤ 52 := by
        by_cases hzero : digits = 0
        · rw [hzero, Nat.log2_zero]
          exact Nat.zero_le _
        · exact Nat.lt_succ_iff.mp ((Nat.log2_lt hzero).mpr hdigits)
      change (digits * 1).log2 - 52 = 0
      rw [Nat.mul_one]
      omega
  have hspacing : 0 < Nat.pow 2 doublings := Nat.two_pow_pos _
  unfold nearest
  dsimp only
  rw [Nat.div_one, hexcess, Nat.one_mul, divideToEven_mul hspacing, ← hsplit]
  exact Nat.min_eq_right (Nat.le_of_lt hpattern)

theorem units_eq (pattern : Nat) : units pattern = significand pattern * 2 ^ doublings pattern :=
  rfl

/-- A finite pattern is the nearest one to its own size. -/
theorem nearest_units (h : pattern < infinity) : nearest (units pattern) 1 = pattern := by
  have hsize : fractionSize = 2 ^ 52 := rfl
  unfold units significand
  split
  · rename_i hsubnormal
    have hdoublings : doublings pattern = 0 := by
      rw [doublings, Nat.div_eq_of_lt hsubnormal]
    rw [hdoublings]
    exact nearest_mul_pow h (by omega) (.inr rfl) (by omega)
  · rename_i hnormal
    have hmod : pattern % fractionSize < fractionSize := Nat.mod_lt _ (by decide)
    refine nearest_mul_pow h (by omega) (.inl (Nat.le_add_right _ _)) ?_
    rw [hsize] at hmod
    rw [doublings, hsize]
    omega

/-- What is too large for the format is infinite. -/
theorem nearest_of_large {bits : Nat} (hbits : 2099 ≤ bits) (h : 2 ^ bits ≤ numerator) :
    nearest numerator 1 = infinity := by
  have hpos : numerator ≠ 0 := (Nat.lt_of_lt_of_le (Nat.two_pow_pos bits) h).ne'
  have hlog : bits ≤ numerator.log2 := (Nat.le_log2 hpos).mpr h
  unfold nearest
  dsimp only
  rw [Nat.div_one]
  refine Nat.min_eq_left (Nat.le_trans ?_ (Nat.le_add_right _ _))
  exact Nat.mul_le_mul_right _ (by omega)

/-- What is less than half a unit is zero. -/
theorem nearest_of_small (h : 2 * numerator < denominator) : nearest numerator denominator = 0 := by
  have hlt : numerator < denominator := by omega
  have hzero : divideToEven numerator denominator = 0 := by
    unfold divideToEven
    dsimp only
    rw [Nat.mod_eq_of_lt hlt, Nat.div_eq_of_lt hlt, if_pos h]
  have hscaled : denominator * Nat.pow 2 0 = denominator := Nat.mul_one _
  unfold nearest
  dsimp only
  rw [Nat.div_eq_of_lt hlt, Nat.log2_zero, Nat.zero_sub, hscaled, hzero]
  rfl

end Magnitude

namespace Decimal

/-- The size of a decimal in units, as a quotient: the dividend. -/
def numerator (decimal : Decimal) : Nat :=
  match decimal.exponent with
  | .ofNat exponent => decimal.digits * 10 ^ exponent * Magnitude.one
  | .negSucc _ => decimal.digits * Magnitude.one

/-- The size of a decimal in units, as a quotient: the divisor. -/
def denominator (decimal : Decimal) : Nat :=
  match decimal.exponent with
  | .ofNat _ => 1
  | .negSucc places => 10 ^ (places + 1)

/-- Twenty-eight decimal places hold 93 binary ones. -/
theorem two_pow_le_ten_pow {bits places : Nat}
    (h : bits ≤ 93 * (places / 28) + 3 * (places % 28)) : 2 ^ bits ≤ 10 ^ places :=
  calc 2 ^ bits ≤ 2 ^ (93 * (places / 28) + 3 * (places % 28)) :=
        Nat.pow_le_pow_right (by decide) h
    _ = (2 ^ 93) ^ (places / 28) * (2 ^ 3) ^ (places % 28) := by
        rw [Nat.pow_add, Nat.pow_mul, Nat.pow_mul]
    _ ≤ (10 ^ 28) ^ (places / 28) * 10 ^ (places % 28) :=
        Nat.mul_le_mul (Nat.pow_le_pow_left (by decide) _) (Nat.pow_le_pow_left (by decide) _)
    _ = 10 ^ places := by rw [← Nat.pow_mul, ← Nat.pow_add, Nat.div_add_mod]

/-- The number of units in one as a power, with an exponent that is not computed with. -/
theorem exists_one_eq : ∃ bits, bits = 1074 ∧ Magnitude.one = 2 ^ bits := by
  unfold Magnitude.one
  generalize 1074 = bits
  exact ⟨bits, rfl, rfl⟩

theorem one_pos : 0 < Magnitude.one := by
  obtain ⟨bits, -, hone⟩ := exists_one_eq
  rw [hone]
  exact Nat.two_pow_pos bits

/-- From 10³¹⁰ on a decimal is too large for the format. -/
theorem exists_large {digits exponent : Nat} (hdigits : 0 < digits) (h : 310 ≤ exponent) :
    ∃ bits, 2099 ≤ bits ∧ 2 ^ bits ≤ digits * 10 ^ exponent * Magnitude.one := by
  obtain ⟨bits, hbits, hone⟩ := exists_one_eq
  obtain ⟨more, hmore⟩ : ∃ more, more = 1025 := ⟨_, rfl⟩
  refine ⟨more + bits, by omega, ?_⟩
  rw [hone, Nat.pow_add]
  refine Nat.mul_le_mul_right _ (Nat.le_trans ?_ (Nat.le_mul_of_pos_left _ hdigits))
  exact two_pow_le_ten_pow (by omega)

/-- A decimal of few digits behind many places is less than half a unit. -/
theorem small_of_places {digits places : Nat} (h : digits.log2 + 331 ≤ places) :
    2 * (digits * Magnitude.one) < 10 ^ (places + 1) := by
  obtain ⟨bits, hbits, hone⟩ := exists_one_eq
  have hdigits : digits < 2 ^ (digits.log2 + 1) := Nat.lt_log2_self
  calc 2 * (digits * Magnitude.one) < 2 * (2 ^ (digits.log2 + 1) * Magnitude.one) :=
        Nat.mul_lt_mul_of_pos_left (Nat.mul_lt_mul_of_pos_right hdigits one_pos) (by decide)
    _ = 2 ^ digits.log2 * 2 ^ (bits + 2) := by
        rw [hone, Nat.pow_succ, Nat.pow_add]
        ring
    _ ≤ 10 ^ digits.log2 * 10 ^ (places + 1 - digits.log2) :=
        Nat.mul_le_mul (Nat.pow_le_pow_left (by decide) _) (two_pow_le_ten_pow (by omega))
    _ = 10 ^ (places + 1) := by
        rw [← Nat.pow_add, Nat.add_sub_cancel' (by omega)]

theorem numerator_ofNat (digits exponent : Nat) :
    numerator ⟨digits, .ofNat exponent⟩ = digits * 10 ^ exponent * Magnitude.one := rfl

theorem denominator_ofNat (digits exponent : Nat) : denominator ⟨digits, .ofNat exponent⟩ = 1 := rfl

theorem numerator_negSucc (digits places : Nat) :
    numerator ⟨digits, .negSucc places⟩ = digits * Magnitude.one := rfl

theorem denominator_negSucc (digits places : Nat) :
    denominator ⟨digits, .negSucc places⟩ = 10 ^ (places + 1) := rfl

theorem numerator_neg (digits places : Nat) :
    numerator ⟨digits, -(places : Int)⟩ = digits * Magnitude.one := by
  cases places with
  | zero => exact congrArg (· * Magnitude.one) (Nat.mul_one digits)
  | succ places => rfl

theorem denominator_neg (digits places : Nat) :
    denominator ⟨digits, -(places : Int)⟩ = 10 ^ places := by
  cases places <;> rfl

theorem nearest_zero (denominator : Nat) : Magnitude.nearest 0 denominator = 0 := by
  have hzero : ∀ denominator, Magnitude.divideToEven 0 denominator = 0 := by
    intro denominator
    unfold Magnitude.divideToEven
    simp
  unfold Magnitude.nearest
  dsimp only
  rw [hzero, Nat.zero_div, Nat.log2_zero, Nat.zero_sub, Nat.zero_mul]
  rfl

/-- The pattern of a decimal is the nearest one, also where it is found without arithmetic. -/
theorem nearest_eq (decimal : Decimal) :
    decimal.nearest = Magnitude.nearest decimal.numerator decimal.denominator := by
  obtain ⟨digits, exponent⟩ := decimal
  match digits, exponent with
  | 0, .ofNat exponent =>
    change 0 = _
    rw [numerator_ofNat, Nat.zero_mul, Nat.zero_mul, nearest_zero]
  | 0, .negSucc places =>
    change 0 = _
    rw [numerator_negSucc, Nat.zero_mul, nearest_zero]
  | digits + 1, .ofNat exponent =>
    change (if 310 ≤ exponent then Magnitude.infinity else _) = _
    rw [numerator_ofNat, denominator_ofNat]
    split
    · rename_i hexponent
      obtain ⟨bits, hbits, hlarge⟩ := exists_large digits.succ_pos hexponent
      exact (Magnitude.nearest_of_large hbits hlarge).symm
    · rfl
  | digits + 1, .negSucc places =>
    change (if (digits + 1).log2 + 331 ≤ places then 0 else _) = _
    rw [numerator_negSucc, denominator_negSucc]
    split
    · rename_i hplaces
      exact (Magnitude.nearest_of_small (small_of_places hplaces)).symm
    · rfl

theorem nearest_le (decimal : Decimal) : decimal.nearest ≤ Magnitude.infinity := by
  rw [nearest_eq]
  exact Nat.min_le_left _ _

/-- A decimal that is a whole number of units. -/
theorem nearest_of_numerator_eq {decimal : Decimal} {units : Nat}
    (h : decimal.numerator = decimal.denominator * units) :
    decimal.nearest = Magnitude.nearest units 1 := by
  have hpos : 0 < decimal.denominator := by
    unfold denominator
    split
    · exact Nat.one_pos
    · exact Nat.pow_pos (by decide)
  have hscaled := Magnitude.nearest_mul_left hpos units 1
  rw [← h, Nat.mul_one] at hscaled
  rw [nearest_eq, hscaled]

/-- A zero at the end of the digits is a power of ten. -/
theorem nearest_ten_mul (digits : Nat) (exponent : Int) :
    nearest ⟨10 * digits, exponent⟩ = nearest ⟨digits, exponent + 1⟩ := by
  rw [nearest_eq, nearest_eq]
  match exponent with
  | .ofNat exponent =>
    have hnext : Int.ofNat exponent + 1 = .ofNat (exponent + 1) := rfl
    have hten : 10 * digits * 10 ^ exponent = digits * 10 ^ (exponent + 1) := by ring
    rw [hnext, numerator_ofNat, numerator_ofNat, denominator_ofNat, denominator_ofNat, hten]
  | .negSucc 0 =>
    have hnext : Int.negSucc 0 + 1 = .ofNat 0 := rfl
    rw [hnext, numerator_negSucc, denominator_negSucc, numerator_ofNat, denominator_ofNat,
      Nat.mul_assoc, Nat.pow_zero, Nat.mul_one digits, Nat.zero_add, Nat.pow_one]
    exact Magnitude.nearest_mul_left (by decide) _ 1
  | .negSucc (places + 1) =>
    have hnext : Int.negSucc (places + 1) + 1 = .negSucc places := rfl
    rw [hnext, numerator_negSucc, denominator_negSucc, numerator_negSucc, denominator_negSucc,
      Nat.mul_assoc, Nat.pow_succ _ (places + 1), Nat.mul_comm _ 10]
    exact Magnitude.nearest_mul_left (by decide) _ _

/-- Zeros that are written out instead of a power of ten. -/
theorem nearest_mul_pow (digits zeros : Nat) :
    nearest ⟨digits * 10 ^ zeros, 0⟩ = nearest ⟨digits, .ofNat zeros⟩ := by
  have hzero : (0 : Int) = .ofNat 0 := rfl
  rw [nearest_eq, nearest_eq, hzero, numerator_ofNat, numerator_ofNat, denominator_ofNat,
    denominator_ofNat, Nat.pow_zero, Nat.mul_one]

theorem nearest_of_digits_eq_zero {decimal : Decimal} (h : decimal.digits = 0) :
    decimal.nearest = 0 := by
  obtain ⟨digits, exponent⟩ := decimal
  obtain rfl : digits = 0 := h
  cases exponent <;> rfl

/-- Without the zeros at its end a decimal is nearest to the same pattern. -/
theorem nearest_reduced (decimal : Decimal) : decimal.reduced.nearest = decimal.nearest := by
  fun_induction reduced decimal with
  | case1 decimal hzero => rw [nearest_of_digits_eq_zero hzero, nearest_of_digits_eq_zero rfl]
  | case2 decimal hzero hten ih =>
    have hdigits : 10 * (decimal.digits / 10) = decimal.digits :=
      Nat.mul_div_cancel' (Nat.dvd_of_mod_eq_zero hten)
    rw [ih, ← nearest_ten_mul, hdigits]
  | case3 => rfl

end Decimal

end BeamCalc.Number
