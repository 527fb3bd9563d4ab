import BeamCalc.Number.Writing
import BeamCalc.Proofs.Number.Rounding

/-!
# The shortest decimal

The exact expansion of a pattern has its size (`exists_exactDecimal_eq`), and every decimal that
`shortest` takes instead rounds to the pattern (`nearest_shortest`). For a whole number below 10¹⁶
the search ends with a decimal that has no places after the point (`exponent_shortest`): cut to the
length of the whole number, the expansion is the number itself.
-/

set_option autoImplicit false
set_option relaxedAutoImplicit false

namespace BeamCalc.Number

variable {pattern : Nat}

/-- The exact expansion of a pattern has its size. -/
theorem exists_exactDecimal_eq (pattern : Nat) : ∃ digits places : Nat,
    exactDecimal pattern = ⟨digits, -(places : Int)⟩ ∧
      digits * Magnitude.one = 10 ^ places * Magnitude.units pattern := by
  obtain ⟨bits, hbits, hone⟩ := Decimal.exists_one_eq
  rw [exactDecimal, hone, Magnitude.units_eq]
  split
  · rename_i hfew
    obtain ⟨places, hplaces⟩ := Nat.exists_eq_add_of_le hfew
    have hfives : 1074 - Magnitude.doublings pattern = places := by omega
    have hexponent : (Magnitude.doublings pattern : Int) - 1074 = -places := by omega
    have hten : 10 ^ places = 5 ^ places * 2 ^ places := Nat.mul_pow 5 2 places
    refine ⟨Magnitude.significand pattern * 5 ^ places, places, by rw [hfives, hexponent]; rfl, ?_⟩
    rw [hbits.trans hplaces, hten, Nat.pow_add]
    ring
  · rename_i hmany
    obtain ⟨more, hmore⟩ := Nat.exists_eq_add_of_le (Nat.le_of_not_le hmany)
    have htwos : Magnitude.doublings pattern - 1074 = more := by omega
    have hdoublings : Magnitude.doublings pattern = bits + more := hbits ▸ hmore
    refine ⟨Magnitude.significand pattern * 2 ^ more, 0, by rw [htwos]; rfl, ?_⟩
    rw [hdoublings, Nat.pow_add]
    ring

/-- The exact expansion of a finite pattern rounds to it. -/
theorem nearest_exactDecimal (h : pattern < Magnitude.infinity) :
    (exactDecimal pattern).nearest = pattern := by
  obtain ⟨digits, places, hexact, hsize⟩ := exists_exactDecimal_eq pattern
  rw [hexact, Decimal.nearest_of_numerator_eq, Magnitude.nearest_units h]
  rw [Decimal.numerator_neg, Decimal.denominator_neg, hsize]

/-! ### Neighbours -/

variable {exact decimal : Decimal} {dropped : Nat}

/-- A neighbour rounds to the pattern, and its places are those of the expansion less the ones that
are dropped. -/
theorem exists_reduced_of_neighbour? (h : neighbour? pattern exact dropped = some decimal) :
    decimal.nearest = pattern ∧
      ∃ digits, decimal = Decimal.reduced ⟨digits, exact.exponent + dropped⟩ := by
  unfold neighbour? at h
  dsimp only at h
  split at h
  · rename_i hbelow habove
    split at h <;> obtain rfl := Option.some.inj h
    · exact ⟨beq_iff_eq.mp hbelow, _, rfl⟩
    · exact ⟨beq_iff_eq.mp habove, _, rfl⟩
  · rename_i hbelow _
    obtain rfl := Option.some.inj h
    exact ⟨beq_iff_eq.mp hbelow, _, rfl⟩
  · rename_i _ habove
    obtain rfl := Option.some.inj h
    exact ⟨beq_iff_eq.mp habove, _, rfl⟩
  · cases h

/-- There is a neighbour where the expansion cut off rounds to the pattern. -/
theorem neighbour?_ne_none
    (h : Decimal.nearest ⟨exact.digits / 10 ^ dropped, exact.exponent + dropped⟩ = pattern) :
    neighbour? pattern exact dropped ≠ none := by
  rw [← Decimal.nearest_reduced] at h
  unfold neighbour?
  dsimp only
  split
  · split <;> exact Option.some_ne_none _
  · exact Option.some_ne_none _
  · exact Option.some_ne_none _
  · rename_i hbelow _
    exact absurd h (beq_eq_false_iff_ne.mp hbelow)

/-- The shortest decimal rounds to its pattern. -/
theorem nearest_shortest (h : pattern < Magnitude.infinity) :
    (shortest pattern).nearest = pattern := by
  unfold shortest
  dsimp only
  match hfound : (List.range' 1 17).findSome? fun count ↦ neighbour? pattern (exactDecimal pattern)
      ((Decimal.digitText (exactDecimal pattern).digits).length - count) with
  | none => rw [Option.getD_none, Decimal.nearest_reduced, nearest_exactDecimal h]
  | some decimal =>
    obtain ⟨count, -, hneighbour⟩ := List.exists_of_findSome?_eq_some hfound
    exact (exists_reduced_of_neighbour? hneighbour).1

/-! ### Whole numbers -/

/-- The first of several results is not behind any of them. -/
theorem exists_le_of_findSome? {result : Type} {search : Nat → Option result} {first length : Nat}
    {found : result} (h : (List.range' first length).findSome? search = some found) {count : Nat}
    (hfirst : first ≤ count) (hlast : count < first + length) (hcount : search count ≠ none) :
    ∃ earlier, earlier ≤ count ∧ search earlier = some found := by
  obtain ⟨before, earlier, after, hsplit, hfound, hbefore⟩ := List.findSome?_eq_some_iff.mp h
  refine ⟨earlier, ?_, hfound⟩
  have hsorted : (before ++ earlier :: after).Pairwise (· < ·) :=
    hsplit ▸ List.pairwise_lt_range'
  have hmem : count ∈ before ++ earlier :: after :=
    hsplit ▸ List.mem_range'_1.mpr ⟨hfirst, hlast⟩
  rcases List.mem_append.mp hmem with hearly | hlate
  · exact absurd (hbefore count hearly) hcount
  · rcases List.mem_cons.mp hlate with rfl | hlate
    · exact Nat.le_refl _
    · have hlater := (List.pairwise_append.mp hsorted).2.1
      exact Nat.le_of_lt ((List.pairwise_cons.mp hlater).1 count hlate)

/-- Without the zeros at its end a decimal has no more places. -/
theorem exponent_reduced (h : 0 ≤ decimal.exponent) : 0 ≤ decimal.reduced.exponent := by
  fun_induction Decimal.reduced decimal with
  | case1 => exact Int.le_refl 0
  | case2 decimal hzero hten ih => exact ih (Int.le_add_one h)
  | case3 => exact h

/-- Zeros at the end make the digits longer by as many. -/
theorem length_digitText_mul_pow {number : Nat} (h : 0 < number) (zeros : Nat) :
    (Decimal.digitText (number * 10 ^ zeros)).length =
      (Decimal.digitText number).length + zeros := by
  have hbound : ∀ (number length : Nat), 0 < length →
      ((Decimal.digitText number).length ≤ length ↔ number < 10 ^ length) :=
    fun _ _ hpos ↦ Nat.length_toDigits_le_iff (by decide) hpos
  have hpos : ∀ number, 0 < (Decimal.digitText number).length := fun _ ↦ Nat.length_toDigits_pos
  apply Nat.le_antisymm
  · rw [hbound _ _ (by have := hpos number; omega), Nat.pow_add]
    exact Nat.mul_lt_mul_of_pos_right ((hbound _ _ (hpos number)).mp (Nat.le_refl _))
      (Nat.pow_pos (by decide))
  · have hlt := (hbound _ _ (hpos (number * 10 ^ zeros))).mp (Nat.le_refl _)
    have hzeros : zeros < (Decimal.digitText (number * 10 ^ zeros)).length := by
      refine (Nat.pow_lt_pow_iff_right (by decide)).mp (Nat.lt_of_le_of_lt ?_ hlt)
      exact Nat.le_mul_of_pos_left _ h
    obtain ⟨others, hothers⟩ := Nat.exists_eq_add_of_lt hzeros
    rw [hothers, Nat.add_assoc, Nat.pow_add, Nat.mul_comm] at hlt
    have hnumber := Nat.lt_of_mul_lt_mul_left hlt
    have hlength := (hbound _ _ others.succ_pos).mpr hnumber
    omega

/-- The whole number of a pattern that is short. -/
theorem exists_units_eq (h : isShortInteger pattern) :
    ∃ whole, whole < 10 ^ 16 ∧ Magnitude.units pattern = whole * Magnitude.one := by
  rw [isShortInteger, Bool.and_eq_true, decide_eq_true_eq, decide_eq_true_eq] at h
  generalize Magnitude.one = one at h ⊢
  obtain ⟨hwhole, hsmall⟩ := h
  have hunits : Magnitude.units pattern / one * one = Magnitude.units pattern :=
    Nat.div_mul_cancel (Nat.dvd_of_mod_eq_zero hwhole)
  refine ⟨_, ?_, hunits.symm⟩
  rw [← hunits] at hsmall
  exact Nat.lt_of_mul_lt_mul_right hsmall

section Whole

variable {whole : Nat} (hunits : Magnitude.units pattern = whole * Magnitude.one)

include hunits

/-- The exact expansion of a whole number is the number with zeros after the point. -/
theorem exists_exactDecimal_eq_mul_pow :
    ∃ places : Nat, exactDecimal pattern = ⟨whole * 10 ^ places, -(places : Int)⟩ := by
  obtain ⟨digits, places, hexact, hsize⟩ := exists_exactDecimal_eq pattern
  have hdigits : digits = whole * 10 ^ places := by
    refine Nat.eq_of_mul_eq_mul_right Decimal.one_pos ?_
    rw [hsize, hunits]
    ring
  exact ⟨places, hdigits ▸ hexact⟩

/-- Without the zeros, the expansion is the number itself. -/
theorem neighbour?_mul_pow_ne_none (hfinite : pattern < Magnitude.infinity) (places : Nat) :
    neighbour? pattern ⟨whole * 10 ^ places, -(places : Int)⟩ places ≠ none := by
  apply neighbour?_ne_none
  dsimp only
  rw [Nat.mul_div_cancel _ (Nat.pow_pos (by decide)), Int.add_left_neg]
  refine (Decimal.nearest_of_numerator_eq ?_).trans (Magnitude.nearest_units hfinite)
  exact (Decimal.numerator_neg whole 0).trans (hunits.symm.trans (Nat.one_mul _).symm)

end Whole

/-- The shortest decimal of a whole number below 10¹⁶ has no places after the point. -/
theorem exponent_shortest (hfinite : pattern < Magnitude.infinity) (h : isShortInteger pattern) :
    0 ≤ (shortest pattern).exponent := by
  obtain ⟨whole, hlt, hunits⟩ := exists_units_eq h
  by_cases hzero : whole = 0
  · have hpattern : pattern = 0 := by
      rw [← Magnitude.nearest_units hfinite, hunits, hzero, Nat.zero_mul, Decimal.nearest_zero]
    rw [hpattern]
    decide +kernel
  · obtain ⟨places, hexact⟩ := exists_exactDecimal_eq_mul_pow hunits
    have hlength := length_digitText_mul_pow (Nat.pos_of_ne_zero hzero) places
    have hcount : (Decimal.digitText whole).length ≤ 16 :=
      (Nat.length_toDigits_le_iff (by decide) (by decide)).mpr hlt
    have hfirst : 0 < (Decimal.digitText whole).length := Nat.length_toDigits_pos
    have hcut : neighbour? pattern ⟨whole * 10 ^ places, -(places : Int)⟩
        ((Decimal.digitText (whole * 10 ^ places)).length - (Decimal.digitText whole).length) ≠
          none := by
      rw [hlength, Nat.add_sub_cancel_left]
      exact neighbour?_mul_pow_ne_none hunits hfinite places
    unfold shortest
    dsimp only
    rw [hexact]
    match hfound : (List.range' 1 17).findSome? fun count ↦
        neighbour? pattern ⟨whole * 10 ^ places, -(places : Int)⟩
          ((Decimal.digitText (whole * 10 ^ places)).length - count) with
    | none =>
      refine absurd (List.findSome?_eq_none_iff.mp hfound _ ?_) hcut
      rw [List.mem_range'_1]
      omega
    | some decimal =>
      -- The search stops at the length of the number or before, so that many places are dropped.
      obtain ⟨count, hle, hneighbour⟩ := exists_le_of_findSome? hfound hfirst (by omega) hcut
      obtain ⟨-, digits, rfl⟩ := exists_reduced_of_neighbour? hneighbour
      apply exponent_reduced
      dsimp only
      rw [hlength]
      omega

end BeamCalc.Number
