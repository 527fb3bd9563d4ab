import BeamCalc.Number.Writing
import Mathlib

/-!
# Signs and patterns

A number is named by its sign and the pattern of its magnitude. It is made from its own sign and
pattern (`ofPattern_patternOf`), and what is made from a sign and a pattern up to that of infinity
has their bits (`toBits_ofPattern`). Negation changes the sign only (`neg_ofPattern`). The finite
numbers are those below the pattern of infinity (`isFinite_iff`), and beyond it is what is no number
(`isNaN_iff`).

The lemmas on `packComponents` say this of the three fields that the core library cuts the bits of
a number into.
-/

set_option autoImplicit false
set_option relaxedAutoImplicit false

namespace BeamCalc.Number

open Float.Model (Format)

open Float.Model.UnpackedFloat

/-! ### Fields -/

variable {sign : Sign} {exponent : BitVec 11} {mantissa : BitVec 52}

/-- Fields that write a number are those of what they are unpacked to. -/
theorem pack_unpack_packComponents (h : exponent = -1#11 → mantissa = 0#52) :
    pack .binary64 (unpack .binary64 (packComponents .binary64 sign exponent mantissa)) =
      packComponents .binary64 sign exponent mantissa := by
  refine pack_unpack_of_valid ⟨fun hlast hfraction ↦ ?_⟩
  rw [unpackExponent_packComponents] at hlast
  rw [unpackMantissa_packComponents] at hfraction
  exact absurd (h hlast) hfraction

/-- The other sign of fields that write a number. -/
theorem neg_unpack_packComponents (h : exponent = -1#11 → mantissa = 0#52) :
    (unpack .binary64 (packComponents .binary64 sign exponent mantissa)).neg =
      unpack .binary64 (packComponents .binary64 (-sign) exponent mantissa) := by
  rw [unpack, unpack]
  simp only [unpackMantissa_packComponents, unpackExponent_packComponents,
    unpackSign_packComponents, Sign.ofBitVec_toBitVec]
  split
  · rename_i hinfinite
    rw [if_pos (h hinfinite), if_pos (h hinfinite)]
    rfl
  · split
    · split <;> rfl
    · rfl

/-- Fields write a finite number unless the exponent is the last one. -/
theorem isFinite_unpack_packComponents :
    (unpack .binary64 (packComponents .binary64 sign exponent mantissa)).isFinite ↔
      exponent ≠ -1#11 := by
  rw [unpack]
  simp only [unpackMantissa_packComponents, unpackExponent_packComponents]
  split
  · rename_i hinfinite
    simp only [hinfinite, ne_eq, not_true, iff_false]
    split <;> exact Bool.false_ne_true
  · rename_i hfinite
    refine iff_of_true ?_ hfinite
    split
    · split <;> rfl
    · rfl

/-! ### Patterns -/

/-- The bits of a sign and a pattern. -/
def bitsOf (negative : Bool) (pattern : Nat) : UInt64 :=
  UInt64.ofNat (if negative then Nat.pow 2 63 + pattern else pattern)

/-- The sign of a number in the core library. -/
def signOf (negative : Bool) : Sign :=
  if negative then .negative else .positive

variable {negative : Bool} {pattern : Nat} {value : Float}

theorem toNat_packComponents : (packComponents .binary64 sign exponent mantissa).toNat =
    sign.toBitVec.toNat * 2 ^ 63 + exponent.toNat * 2 ^ 52 + mantissa.toNat := by
  have hbits : (packComponents .binary64 sign exponent mantissa).toNat =
      (sign.toBitVec.toNat <<< 11 ||| exponent.toNat) <<< 52 ||| mantissa.toNat := rfl
  rw [hbits, ← Nat.shiftLeft_add_eq_or_of_lt mantissa.isLt,
    ← Nat.shiftLeft_add_eq_or_of_lt exponent.isLt, Nat.shiftLeft_eq, Nat.shiftLeft_eq]
  omega

/-- A pattern is an exponent and a fraction. -/
theorem toBitVec_bitsOf (h : pattern < 2 ^ 63) :
    (bitsOf negative pattern).toBitVec = packComponents .binary64 (signOf negative)
      (BitVec.ofNat 11 (pattern / 2 ^ 52)) (BitVec.ofNat 52 (pattern % 2 ^ 52)) := by
  apply BitVec.eq_of_toNat_eq
  rw [toNat_packComponents, BitVec.toNat_ofNat, BitVec.toNat_ofNat]
  change (bitsOf negative pattern).toNat = _
  cases negative with
  | false =>
    have hbits : (bitsOf false pattern).toNat = pattern % 2 ^ 64 := UInt64.toNat_ofNat'
    change _ = 0 * 2 ^ 63 + _ + _
    omega
  | true =>
    have hbits : (bitsOf true pattern).toNat = (2 ^ 63 + pattern) % 2 ^ 64 := UInt64.toNat_ofNat'
    change _ = 1 * 2 ^ 63 + _ + _
    omega

/-- A number has the bits of its sign and its pattern. -/
theorem toBits_eq (value : Float) : value.toBits = bitsOf (isNegative value) (patternOf value) := by
  have hlt : value.toBits.toNat < 2 ^ 64 := value.toBits.toNat_lt
  have hpattern : patternOf value = value.toBits.toNat % 2 ^ 63 := rfl
  apply UInt64.toNat_inj.mp
  rw [bitsOf, UInt64.toNat_ofNat', hpattern, isNegative]
  change _ = (if decide (2 ^ 63 ≤ value.toBits.toNat) then 2 ^ 63 + _ else _) % 2 ^ 64
  split
  · rename_i hnegative
    have hle := of_decide_eq_true hnegative
    omega
  · rename_i hpositive
    have hle := of_decide_eq_false (Bool.eq_false_iff.mpr hpositive)
    omega

/-- A number is made from its sign and its pattern. -/
theorem ofPattern_patternOf (value : Float) :
    ofPattern (isNegative value) (patternOf value) = value := by
  change Float.ofBits (bitsOf _ _) = value
  rw [← toBits_eq, Float.ofBits_toBits]

theorem patternOf_lt (value : Float) : patternOf value < 2 ^ 63 :=
  Nat.mod_lt _ (by decide)

theorem last_exponent_iff :
    BitVec.ofNat 11 (pattern / 2 ^ 52) = -1#11 ↔ pattern / 2 ^ 52 % 2 ^ 11 = 2047 := by
  rw [← BitVec.toNat_inj]
  exact Iff.rfl

theorem no_fraction_iff :
    BitVec.ofNat 52 (pattern % 2 ^ 52) = 0#52 ↔ pattern % 2 ^ 52 % 2 ^ 52 = 0 := by
  rw [← BitVec.toNat_inj]
  exact Iff.rfl

/-- The fields of a pattern that is not beyond infinity write a number. -/
theorem fraction_eq_zero (h : pattern ≤ Magnitude.infinity)
    (hexponent : BitVec.ofNat 11 (pattern / 2 ^ 52) = -1#11) :
    BitVec.ofNat 52 (pattern % 2 ^ 52) = 0#52 := by
  rw [last_exponent_iff] at hexponent
  rw [no_fraction_iff]
  change pattern ≤ 2047 * 2 ^ 52 at h
  omega

/-- A number that is made from a sign and a pattern has their bits. -/
theorem toBits_ofPattern (h : pattern ≤ Magnitude.infinity) :
    (ofPattern negative pattern).toBits = bitsOf negative pattern := by
  have hlt : pattern < 2 ^ 63 := Nat.lt_of_le_of_lt h (by decide)
  have hpacked : (ofPattern negative pattern).toBits = UInt64.ofBitVec
      (pack .binary64 (unpack .binary64 (bitsOf negative pattern).toBitVec)) := rfl
  rw [hpacked, toBitVec_bitsOf hlt, pack_unpack_packComponents (fraction_eq_zero h),
    ← toBitVec_bitsOf hlt]

/-- The other sign of a number that is made from a sign and a pattern. -/
theorem neg_ofPattern (h : pattern ≤ Magnitude.infinity) :
    (ofPattern negative pattern).neg = ofPattern (!negative) pattern := by
  have hlt : pattern < 2 ^ 63 := Nat.lt_of_le_of_lt h (by decide)
  apply Float.toBits_inj.mp
  have hpacked : (ofPattern negative pattern).neg.toBits = UInt64.ofBitVec (pack .binary64
      (unpack .binary64 (ofPattern negative pattern).toBits.toBitVec).neg) := rfl
  have hsign : -signOf negative = signOf !negative := by cases negative <;> rfl
  rw [hpacked, toBits_ofPattern h, toBits_ofPattern h, toBitVec_bitsOf hlt,
    neg_unpack_packComponents (fraction_eq_zero h), hsign,
    pack_unpack_packComponents (fraction_eq_zero h), ← toBitVec_bitsOf hlt]

/-- The finite numbers are those below the pattern of infinity. -/
theorem isFinite_iff : value.isFinite ↔ patternOf value < Magnitude.infinity := by
  have hlt := patternOf_lt value
  have hunpacked : value.isFinite = (unpack .binary64 value.toBits.toBitVec).isFinite := rfl
  rw [hunpacked, toBits_eq, toBitVec_bitsOf hlt, isFinite_unpack_packComponents, ne_eq,
    last_exponent_iff]
  change _ ↔ patternOf value < 2047 * 2 ^ 52
  omega

/-- There is one number that is none: all patterns beyond infinity stand for it. -/
theorem eq_ofPattern_of_lt (h : Magnitude.infinity < patternOf value) :
    value = ofPattern false (Magnitude.infinity + Magnitude.fractionSize / 2) := by
  have hlt := patternOf_lt value
  change 2047 * 2 ^ 52 < patternOf value at h
  have hbits : value.toBits.toBitVec = packedNaN .binary64 := by
    have hvalid : Format.binary64.Valid value.toBits.toBitVec := value.toModel.valid
    rw [toBits_eq, toBitVec_bitsOf hlt] at hvalid ⊢
    refine hvalid.eq_packedNaN ?_ ?_
    · rw [unpackExponent_packComponents, last_exponent_iff]
      omega
    · rw [unpackMantissa_packComponents, ne_eq, no_fraction_iff]
      omega
  apply Float.toBits_inj.mp
  apply UInt64.toBitVec_inj.mp
  rw [hbits]
  decide

/-- What is no number is beyond the pattern of infinity. -/
theorem isNaN_iff : value.isNaN ↔ Magnitude.infinity < patternOf value := by
  rw [Float.isNaN_eq_decide_eq_nan, decide_eq_true_iff]
  constructor
  · rintro rfl
    decide +kernel
  · intro h
    rw [eq_ofPattern_of_lt h]
    decide +kernel

/-- A number that is made from a sign and a pattern has this pattern. -/
theorem patternOf_ofPattern (h : pattern ≤ Magnitude.infinity) :
    patternOf (ofPattern negative pattern) = pattern := by
  have hlt : pattern < 2 ^ 63 := Nat.lt_of_le_of_lt h (by decide)
  have hpattern : patternOf (ofPattern negative pattern) =
      (ofPattern negative pattern).toBits.toNat % 2 ^ 63 := rfl
  rw [hpattern, toBits_ofPattern h, bitsOf, UInt64.toNat_ofNat']
  split
  · change (2 ^ 63 + pattern) % _ % _ = _
    omega
  · omega

/-- A number that is made from a sign and a pattern has this sign. -/
theorem isNegative_ofPattern (h : pattern ≤ Magnitude.infinity) :
    isNegative (ofPattern negative pattern) = negative := by
  have hlt : pattern < 2 ^ 63 := Nat.lt_of_le_of_lt h (by decide)
  have hsign : isNegative (ofPattern negative pattern) =
      decide (2 ^ 63 ≤ (ofPattern negative pattern).toBits.toNat) := rfl
  rw [hsign, toBits_ofPattern h, bitsOf, UInt64.toNat_ofNat']
  cases negative with
  | false =>
    refine decide_eq_false ?_
    change ¬2 ^ 63 ≤ pattern % 2 ^ 64
    omega
  | true =>
    refine decide_eq_true ?_
    change 2 ^ 63 ≤ (2 ^ 63 + pattern) % 2 ^ 64
    omega

theorem not_isNaN_ofPattern (h : pattern ≤ Magnitude.infinity) :
    ¬(ofPattern negative pattern).isNaN := by
  rw [isNaN_iff, patternOf_ofPattern h]
  exact Nat.not_lt.mpr h

/-- The negation of a number is a number. -/
theorem not_isNaN_neg (h : ¬value.isNaN) : ¬value.neg.isNaN := by
  have hle : patternOf value ≤ Magnitude.infinity := Nat.le_of_not_lt (mt isNaN_iff.mpr h)
  rw [← ofPattern_patternOf value, neg_ofPattern hle]
  exact not_isNaN_ofPattern hle

end BeamCalc.Number
