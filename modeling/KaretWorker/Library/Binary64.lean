import Mathlib.Data.Nat.Log
import Mathlib.Algebra.Order.Ring.Int

/-!
# Binary64 numbers

Doubles as their 64 bits. Values are compared in units of `2^-1074`, the least positive
double: every finite double and every integer is a whole number of units, and infinity
counts as `2^1024`, above all of them. A comparison with NaN is false.

An integer is rounded to the nearest double, ties to even. Rounding moves an integer onto
a double but never across one (`le_ofInteger`, `ofInteger_le`), so a comparison with a
double survives it in one direction only: an integer on the wrong side of a bound may be
rounded onto the bound.
-/
namespace Binary64

/-- The biased exponent. -/
def exponent (bits : BitVec 64) : Nat := bits.toNat / 2 ^ 52 % 2 ^ 11

/-- The fifty-two bits below the exponent. -/
def fraction (bits : BitVec 64) : Nat := bits.toNat % 2 ^ 52

/-- The sign bit is set. -/
def negative (bits : BitVec 64) : Prop := 2 ^ 63 ≤ bits.toNat

instance (bits : BitVec 64) : Decidable (negative bits) := inferInstanceAs (Decidable (_ ≤ _))

/-- Neither infinite nor NaN. -/
def Finite (bits : BitVec 64) : Prop := exponent bits ≠ 2047

instance (bits : BitVec 64) : Decidable (Finite bits) := inferInstanceAs (Decidable (_ ≠ _))

/-- No number: the exponent is full and the fraction is not zero. -/
def IsNaN (bits : BitVec 64) : Prop := exponent bits = 2047 ∧ fraction bits ≠ 0

instance (bits : BitVec 64) : Decidable (IsNaN bits) := inferInstanceAs (Decidable (_ ∧ _))

/-- Finite doubles are numbers. -/
theorem Finite.not_isNaN {bits : BitVec 64} (finite : Finite bits) : ¬ IsNaN bits :=
  fun nan => finite nan.1

/-- The absolute value, in units. -/
def magnitude (bits : BitVec 64) : Nat :=
  if exponent bits = 0 then fraction bits
  else (2 ^ 52 + fraction bits) * 2 ^ (exponent bits - 1)

/-- The value, in units. -/
def units (bits : BitVec 64) : Int :=
  if negative bits then -(magnitude bits : Int) else magnitude bits

/-- One has as many units as this power of two. -/
def unitExponent : Nat := 1074

/-- The value of an integer, in units. -/
def unitsOf (value : Int) : Int := value * (2 ^ unitExponent : Nat)

/-- The comparison `<` of doubles. -/
def Less (left right : BitVec 64) : Prop :=
  ¬ IsNaN left ∧ ¬ IsNaN right ∧ units left < units right

instance (left right : BitVec 64) : Decidable (Less left right) :=
  inferInstanceAs (Decidable (_ ∧ _))

/-! ## Rounding -/

/-- The significand of the double nearest a positive integer, from `2^52` to `2^53`. -/
def significand (value : Nat) : Nat :=
  if value.log2 ≤ 52 then value * 2 ^ (52 - value.log2)
  else
    let step := 2 ^ (value.log2 - 52)
    let rest := value % step
    if step < 2 * rest ∨ (step = 2 * rest ∧ value / step % 2 = 1) then value / step + 1
    else value / step

/-- The bits of the double nearest a natural number. A significand of `2^53` carries into
the exponent. -/
def roundBits (value : Nat) : Nat :=
  if value = 0 then 0 else (value.log2 + 1023) * 2 ^ 52 + (significand value - 2 ^ 52)

/-- The double nearest an integer. -/
def ofInteger (value : Int) : BitVec 64 :=
  BitVec.ofNat 64 (roundBits value.natAbs + if value < 0 then 2 ^ 63 else 0)

example : ofInteger (2 ^ 53 + 1) = ofInteger (2 ^ 53) := by decide

/-- A double with at least 53 bits above a place is a multiple of that place. -/
theorem magnitude_grid {bits : BitVec 64} {place : Nat}
    (large : 2 ^ (place + 52) ≤ magnitude bits) :
    2 ^ place ∣ magnitude bits := by
  have fractionBound : fraction bits < 2 ^ 52 := Nat.mod_lt _ (by decide)
  unfold magnitude at large ⊢
  by_cases subnormal : exponent bits = 0
  · rw [if_pos subnormal] at large
    have : 2 ^ 52 ≤ 2 ^ (place + 52) := Nat.pow_le_pow_right (by decide) (Nat.le_add_left _ _)
    omega
  · rw [if_neg subnormal] at large ⊢
    have above : 2 ^ (place + 52) < 2 ^ (53 + (exponent bits - 1)) := by
      rw [Nat.pow_add 2 53]
      exact lt_of_le_of_lt large (Nat.mul_lt_mul_of_pos_right (by omega) (Nat.two_pow_pos _))
    have exponents : place + 52 < 53 + (exponent bits - 1) :=
      (Nat.pow_lt_pow_iff_right (by decide)).mp above
    have divides : 2 ^ place ∣ 2 ^ (exponent bits - 1) := Nat.pow_dvd_pow 2 (by omega)
    exact Nat.dvd_mul_left_of_dvd divides _

/-- The fields of the double with a significand, which may be carried into the exponent. -/
theorem word_fields {top digits word : Nat} (bounded : top ≤ 1000) (least : 2 ^ 52 ≤ digits)
    (most : digits ≤ 2 ^ 53) (isWord : word = (top + 1023) * 2 ^ 52 + (digits - 2 ^ 52)) :
    word < 2 ^ 63 ∧ word / 2 ^ 52 % 2 ^ 11 ≠ 2047 ∧ word / 2 ^ 52 % 2 ^ 11 ≠ 0 ∧
      (2 ^ 52 + word % 2 ^ 52) * 2 ^ (word / 2 ^ 52 % 2 ^ 11 - 1) = digits * 2 ^ (top + 1022) := by
  rcases Nat.lt_or_ge digits (2 ^ 53) with below | full
  · have exponentIs : word / 2 ^ 52 % 2 ^ 11 = top + 1023 := by omega
    have fractionIs : word % 2 ^ 52 = digits - 2 ^ 52 := by omega
    refine ⟨by omega, by omega, by omega, ?_⟩
    rw [exponentIs, fractionIs, Nat.add_sub_cancel' least]
    rfl
  · obtain rfl : digits = 2 ^ 53 := Nat.le_antisymm most full
    have exponentIs : word / 2 ^ 52 % 2 ^ 11 = top + 1024 := by omega
    have fractionIs : word % 2 ^ 52 = 0 := by omega
    have doubled : (2 ^ 52 + 0) * 2 = 2 ^ 53 := by omega
    refine ⟨by omega, by omega, by omega, ?_⟩
    rw [exponentIs, fractionIs, show top + 1024 - 1 = (top + 1022) + 1 by omega,
      Nat.pow_succ 2 (top + 1022), Nat.mul_comm (2 ^ (top + 1022)) 2, ← Nat.mul_assoc, doubled]

section Significand

variable {value : Nat}

/-- The whole and the rest of a number with more than 53 bits. -/
theorem quotient_bounds (positive : 0 < value) (long : 52 < value.log2) :
    2 ^ 52 ≤ value / 2 ^ (value.log2 - 52) ∧ value / 2 ^ (value.log2 - 52) < 2 ^ 53 := by
  have least : 2 ^ value.log2 ≤ value := Nat.log2_self_le (Nat.pos_iff_ne_zero.mp positive)
  have most : value < 2 ^ (value.log2 + 1) := Nat.lt_log2_self
  constructor
  · rw [Nat.le_div_iff_mul_le (Nat.two_pow_pos _), ← Nat.pow_add,
      show 52 + (value.log2 - 52) = value.log2 by omega]
    exact least
  · rw [Nat.div_lt_iff_lt_mul (Nat.two_pow_pos _), ← Nat.pow_add,
      show 53 + (value.log2 - 52) = value.log2 + 1 by omega]
    exact most

/-- The significand of a positive number has fifty-three bits; rounding may carry it one above. -/
theorem significand_bounds (positive : 0 < value) :
    2 ^ 52 ≤ significand value ∧ significand value ≤ 2 ^ 53 := by
  unfold significand
  split
  · next short =>
    have least : 2 ^ value.log2 ≤ value := Nat.log2_self_le (Nat.pos_iff_ne_zero.mp positive)
    have most : value < 2 ^ (value.log2 + 1) := Nat.lt_log2_self
    constructor
    · calc 2 ^ 52 = 2 ^ value.log2 *
        2 ^ (52 - value.log2) := by rw [← Nat.pow_add, Nat.add_sub_cancel' short]
        _ ≤ value * 2 ^ (52 - value.log2) := Nat.mul_le_mul_right _ least
    · calc value * 2 ^ (52 - value.log2) ≤ 2 ^ (value.log2 + 1) * 2 ^ (52 - value.log2) :=
            Nat.mul_le_mul_right _ (Nat.le_of_lt most)
        _ = 2 ^ 53 := by rw [← Nat.pow_add, show value.log2 + 1 + (52 - value.log2) = 53 by omega]
  · next long =>
    have bounds := quotient_bounds positive (Nat.lt_of_not_le long)
    simp only
    split <;> omega

/-- A number of at most 53 bits is not rounded. -/
theorem significand_exact (short : value.log2 ≤ 52) :
    significand value * 2 ^ (value.log2 + 1022) = value * 2 ^ unitExponent := by
  rw [significand, if_pos short, Nat.mul_assoc, ← Nat.pow_add,
    show 52 - value.log2 + (value.log2 + 1022) = unitExponent by unfold unitExponent; omega]

/-- A double that is at most a number is at most its rounding. -/
theorem le_significand {bits : BitVec 64} (positive : 0 < value)
    (below : magnitude bits ≤ value * 2 ^ unitExponent) :
    magnitude bits ≤ significand value * 2 ^ (value.log2 + 1022) := by
  rcases Nat.lt_or_ge 52 value.log2 with long | short
  · have bounds := quotient_bounds positive long
    have place : value.log2 + 1022 = (value.log2 - 52) +
      unitExponent := by unfold unitExponent; omega
    have atLeast : value / 2 ^ (value.log2 - 52) ≤ significand value := by
      rw [significand, if_neg (Nat.not_le_of_lt long)]
      simp only
      split <;> omega
    refine Nat.le_trans ?_ (Nat.mul_le_mul_right _ atLeast)
    rw [place]
    rcases Nat.lt_or_ge (magnitude bits)
      (2 ^ ((value.log2 - 52) + unitExponent + 52)) with small | large
    · refine Nat.le_of_lt (Nat.lt_of_lt_of_le small ?_)
      rw [Nat.pow_add _ _ 52, Nat.mul_comm]
      exact Nat.mul_le_mul_right _ bounds.1
    · obtain ⟨count, isCount⟩ := magnitude_grid large
      rw [isCount, Nat.mul_comm]
      refine Nat.mul_le_mul_right _ ((Nat.le_div_iff_mul_le (Nat.two_pow_pos _)).mpr ?_)
      refine Nat.le_of_mul_le_mul_right ?_ (Nat.two_pow_pos unitExponent)
      rw [Nat.mul_assoc, ← Nat.pow_add, Nat.mul_comm, ← isCount]
      exact below
  · rw [significand_exact short]
    exact below

/-- A double that is at least a number is at least its rounding. -/
theorem significand_le {bits : BitVec 64} (positive : 0 < value)
    (above : value * 2 ^ unitExponent ≤ magnitude bits) :
    significand value * 2 ^ (value.log2 + 1022) ≤ magnitude bits := by
  rcases Nat.lt_or_ge 52 value.log2 with long | short
  · have bounds := quotient_bounds positive long
    have place : value.log2 + 1022 = (value.log2 - 52) +
      unitExponent := by unfold unitExponent; omega
    have whole : value / 2 ^ (value.log2 - 52) * 2 ^ ((value.log2 - 52) + unitExponent) ≤
      magnitude bits := by
      rw [Nat.pow_add, ← Nat.mul_assoc]
      exact Nat.le_trans (Nat.mul_le_mul_right _ (Nat.div_mul_le_self _ _)) above
    have large : 2 ^ ((value.log2 - 52) + unitExponent + 52) ≤ magnitude bits := by
      refine Nat.le_trans ?_ whole
      rw [Nat.pow_add _ _ 52, Nat.mul_comm]
      exact Nat.mul_le_mul_right _ bounds.1
    obtain ⟨count, isCount⟩ := magnitude_grid large
    rw [place, isCount, Nat.mul_comm]
    refine Nat.mul_le_mul_left _ ?_
    -- The rest is rounded up only if there is one, and then the double is above the whole.
    rw [significand, if_neg (Nat.not_le_of_lt long)]
    simp only
    split
    · next up =>
      have rest : 0 < value % 2 ^ (value.log2 - 52) := by
        have := Nat.two_pow_pos (value.log2 - 52)
        omega
      have parts := Nat.div_add_mod' value (2 ^ (value.log2 - 52))
      have beyond : value / 2 ^ (value.log2 - 52) * 2 ^ (value.log2 - 52) * 2 ^ unitExponent <
          value * 2 ^ unitExponent := Nat.mul_lt_mul_of_pos_right (by omega) (Nat.two_pow_pos _)
      have strict := Nat.lt_of_lt_of_le beyond above
      rw [isCount, Nat.mul_assoc, ← Nat.pow_add, Nat.mul_comm] at strict
      exact Nat.succ_le_of_lt (Nat.lt_of_mul_lt_mul_left strict)
    · rw [isCount, Nat.mul_comm] at whole
      exact Nat.le_of_mul_le_mul_left whole (Nat.two_pow_pos _)
  · rw [significand_exact short]
    exact above

end Significand

/-- The magnitude of a rounded natural number. -/
def roundedMagnitude (value : Nat) : Nat :=
  if value = 0 then 0 else significand value * 2 ^ (value.log2 + 1022)

/-- Numbers of sixty-four bits are far below the largest double. -/
theorem log2_bound {value : Nat} (fits : value < 2 ^ 64) : value.log2 ≤ 1000 := by
  rcases Nat.eq_zero_or_pos value with rfl | positive
  · decide
  · have := (Nat.log2_lt (Nat.pos_iff_ne_zero.mp positive)).mpr fits
    omega

/-- A rounded integer is a number with the integer's sign. -/
theorem ofInteger_fields {value : Int} (fits : value.natAbs < 2 ^ 64) :
    ¬ IsNaN (ofInteger value) ∧ (negative (ofInteger value) ↔ value < 0) ∧
      magnitude (ofInteger value) = roundedMagnitude value.natAbs := by
  rcases Nat.eq_zero_or_pos value.natAbs with zero | positive
  · obtain rfl := Int.natAbs_eq_zero.mp zero
    decide +kernel
  obtain ⟨least, most⟩ := significand_bounds positive
  obtain ⟨magnitudeBits, isBits⟩ : ∃ word, word =
      (value.natAbs.log2 + 1023) * 2 ^ 52 + (significand value.natAbs - 2 ^ 52) := ⟨_, rfl⟩
  obtain ⟨small, number, normal, scaled⟩ := word_fields (log2_bound fits) least most isBits
  have word : (ofInteger value).toNat = magnitudeBits + if value < 0 then 2 ^ 63 else 0 := by
    rw [ofInteger, roundBits, if_neg (Nat.pos_iff_ne_zero.mp positive), BitVec.toNat_ofNat,
      ← isBits]
    split <;> omega
  have sameExponent : exponent (ofInteger value) = magnitudeBits / 2 ^ 52 % 2 ^ 11 := by
    rw [exponent, word]
    split <;> omega
  have sameFraction : fraction (ofInteger value) = magnitudeBits % 2 ^ 52 := by
    rw [fraction, word]
    split <;> omega
  refine ⟨fun nan => number (sameExponent ▸ nan.1), ?_, ?_⟩
  · rw [negative, word]
    split <;> omega
  · rw [magnitude, sameExponent, if_neg normal, sameFraction, scaled, roundedMagnitude,
      if_neg (Nat.pos_iff_ne_zero.mp positive)]

/-- A double that is at most an integer in magnitude is at most its rounding. -/
theorem le_roundedMagnitude {bits : BitVec 64} {value : Nat}
    (below : magnitude bits ≤ value * 2 ^ unitExponent) :
    magnitude bits ≤ roundedMagnitude value := by
  rcases Nat.eq_zero_or_pos value with rfl | positive
  · rwa [Nat.zero_mul] at below
  · rw [roundedMagnitude, if_neg (Nat.pos_iff_ne_zero.mp positive)]
    exact le_significand positive below

/-- Rounding up does not pass a double that lies above. -/
theorem roundedMagnitude_le {bits : BitVec 64} {value : Nat}
    (above : value * 2 ^ unitExponent ≤ magnitude bits) :
    roundedMagnitude value ≤ magnitude bits := by
  rcases Nat.eq_zero_or_pos value with rfl | positive
  · exact Nat.zero_le _
  · rw [roundedMagnitude, if_neg (Nat.pos_iff_ne_zero.mp positive)]
    exact significand_le positive above

/-- A rounded integer is finite. -/
theorem ofInteger_finite {value : Int} (fits : value.natAbs < 2 ^ 64) :
    Finite (ofInteger value) := by
  intro infinite
  -- Two to the 64th is a double, and no integer in range is rounded past it.
  have double : magnitude 0x43F0000000000000#64 = 2 ^ 64 * 2 ^ unitExponent := by decide +kernel
  have rounded : magnitude (ofInteger value) ≤ 2 ^ 64 * 2 ^ unitExponent := by
    rw [(ofInteger_fields fits).2.2, ← double]
    refine roundedMagnitude_le ?_
    rw [double]
    exact Nat.mul_le_mul_right _ (Nat.le_of_lt fits)
  have huge : 2 ^ 52 * 2 ^ (2047 - 1) ≤ magnitude (ofInteger value) := by
    rw [magnitude, if_neg (by rw [infinite]; decide), infinite]
    exact Nat.mul_le_mul_right _ (Nat.le_add_right _ _)
  exact absurd (Nat.le_trans huge rounded) (by decide +kernel)

/-- A rounded integer is its rounded magnitude under its sign. -/
theorem units_ofInteger {value : Int} (fits : value.natAbs < 2 ^ 64) :
    units (ofInteger value) =
      if value < 0 then -(roundedMagnitude value.natAbs : Int)
        else roundedMagnitude value.natAbs := by
  obtain ⟨-, sign, sameMagnitude⟩ := ofInteger_fields fits
  simp only [units, sameMagnitude, sign]

/-- The units of an integer are those of its absolute value, with its sign. -/
theorem unitsOf_natAbs (value : Int) : unitsOf value =
    if value < 0 then -((value.natAbs * 2 ^ unitExponent : Nat) : Int)
    else (value.natAbs * 2 ^ unitExponent : Nat) := by
  rw [unitsOf]
  split
  · next below =>
    rw [Int.natCast_mul, ← Int.neg_mul, Int.ofNat_natAbs_of_nonpos (Int.le_of_lt below),
      Int.neg_neg]
  · next notBelow => rw [Int.natCast_mul, Int.natAbs_of_nonneg (Int.not_lt.mp notBelow)]

/-- Positive integers have positive units. -/
theorem unitsOf_pos {value : Nat} (positive : 0 < value) : 0 < value * 2 ^ unitExponent :=
  Nat.mul_pos positive (Nat.two_pow_pos _)

/-- Rounding moves no integer below a double that it is not below. -/
theorem le_ofInteger {bits : BitVec 64} {value : Int} (fits : value.natAbs < 2 ^ 64)
    (below : units bits ≤ unitsOf value) : units bits ≤ units (ofInteger value) := by
  rw [unitsOf_natAbs] at below
  rw [units_ofInteger fits]
  unfold units at below ⊢
  by_cases bitsNegative : negative bits <;> by_cases valueNegative : value < 0
  · rw [if_pos bitsNegative, if_pos valueNegative] at *
    have := roundedMagnitude_le (Int.ofNat_le.mp (Int.neg_le_neg_iff.mp below))
    omega
  · rw [if_pos bitsNegative, if_neg valueNegative]
    omega
  · rw [if_neg bitsNegative, if_pos valueNegative] at below
    have := unitsOf_pos (Int.natAbs_pos.mpr (Int.ne_of_lt valueNegative))
    omega
  · rw [if_neg bitsNegative, if_neg valueNegative] at *
    exact Int.ofNat_le.mpr (le_roundedMagnitude (Int.ofNat_le.mp below))

/-- Rounding an integer does not pass a double that it is not above. -/
theorem ofInteger_le {bits : BitVec 64} {value : Int} (fits : value.natAbs < 2 ^ 64)
    (above : unitsOf value ≤ units bits) : units (ofInteger value) ≤ units bits := by
  rw [unitsOf_natAbs] at above
  rw [units_ofInteger fits]
  unfold units at above ⊢
  by_cases bitsNegative : negative bits <;> by_cases valueNegative : value < 0
  · rw [if_pos bitsNegative, if_pos valueNegative] at *
    have := le_roundedMagnitude (Int.ofNat_le.mp (Int.neg_le_neg_iff.mp above))
    omega
  · rw [if_pos bitsNegative, if_neg valueNegative] at above
    -- Both are zero.
    have zero : value.natAbs = 0 := by
      rcases Nat.eq_zero_or_pos value.natAbs with zero | positive
      · exact zero
      · have := unitsOf_pos positive
        omega
    rw [if_pos bitsNegative, if_neg valueNegative, zero]
    have : magnitude bits = 0 := by omega
    rw [this]
    decide
  · rw [if_neg bitsNegative, if_pos valueNegative]
    omega
  · rw [if_neg bitsNegative, if_neg valueNegative] at *
    exact Int.ofNat_le.mpr (roundedMagnitude_le (Int.ofNat_le.mp above))

end Binary64
