import KaretWorker.Library.Binary64
import KaretWorker.Library.Text
import Mathlib.Algebra.Order.Field.Basic
import Mathlib.Data.Rat.Cast.Order
import Mathlib.Tactic.FieldSimp
import Mathlib.Tactic.Ring

/-!
# Texts of binary64 numbers

The decimal numbers that a text can write for a double, with the names of infinity and of
NaN, and the double that is read from it: the nearest one, ties to even, and infinity beyond
the largest. Values are exact rationals here.

Reading is exact whenever it can be: a number that some double has the value of is read as
a double of that value (`Written.denotes_bits`). A double is cast to a 64-bit integer by truncation,
within the bounds of the type, and NaN to zero.
-/
namespace Binary64

open Texts

/-- The value of a double that is not infinite or NaN. -/
def value (bits : BitVec 64) : ℚ := units bits / 2 ^ unitExponent

/-- The bits of infinity, and of the largest exponent. -/
def infinityBits : Nat := 2047 * 2 ^ 52

/-- The bits of the NaN that a text names. -/
def nanBits : Nat := infinityBits + 2 ^ 51

/-- The double with these bits and this sign. -/
def signed (negative : Bool) (bits : Nat) : BitVec 64 :=
  BitVec.ofNat 64 (bits + if negative then 2 ^ 63 else 0)

/-- The bits of the double nearest a nonnegative rational, ties to even. -/
def nearestBits (numerator denominator : Nat) : Nat :=
  let scaled := numerator * 2 ^ unitExponent
  let step := denominator * 2 ^ ((scaled / denominator).log2 - 52)
  let digits :=
    if step < 2 * (scaled % step) ∨ (step = 2 * (scaled % step) ∧ scaled / step % 2 = 1) then
      scaled / step + 1
    else scaled / step
  min (((scaled / denominator).log2 - 52) * 2 ^ 52 + digits) infinityBits

/-- Cast to a signed 64-bit integer: truncate, and stay within the bounds. -/
def toSigned (bits : BitVec 64) : Int :=
  if IsNaN bits then 0
  else max (-2 ^ 63) (min ((units bits).tdiv (2 ^ unitExponent : Nat)) (2 ^ 63 - 1))

/-! ## Reading -/

/-- A number as it is written. -/
inductive Written where
  | decimal (negative : Bool) (digits : Nat) (exponent : Int)
  | infinity (negative : Bool)
  | nan (negative : Bool)
  deriving DecidableEq, Repr

/-- Take a sign off. -/
def splitSign : Text → Bool × Text
  | '-' :: rest => (true, rest)
  | '+' :: rest => (false, rest)
  | text => (false, text)

/-- The exponent of a number, if there is one. -/
def readExponent : Text → Option Int
  | [] => some 0
  | marker :: rest =>
    let (negative, digits) := splitSign rest
    if (marker = 'e' ∨ marker = 'E') ∧ digits ≠ [] ∧ digits.all Char.isDigit then
      some (if negative then -(Nat.ofDigitChars 10 digits 0 : Int) else Nat.ofDigitChars 10 digits 0)
    else none

/-- The digits after a point, if there is one, and what follows them. -/
def splitFraction : Text → Text × Text
  | '.' :: rest => (rest.takeWhile Char.isDigit, rest.dropWhile Char.isDigit)
  | rest => ([], rest)

/-- A number without its sign, as its digits and the power of ten they count. -/
def readDecimal (text : Text) : Option (Nat × Int) :=
  let whole := text.takeWhile Char.isDigit
  let (fraction, rest) := splitFraction (text.dropWhile Char.isDigit)
  if whole ++ fraction = [] then none
  else
    (readExponent rest).map (fun exponent =>
      (Nat.ofDigitChars 10 (whole ++ fraction) 0, exponent - fraction.length))

/-- What a text writes. The names of infinity and NaN are read in any case. -/
def readWritten (text : Text) : Option Written :=
  let (negative, rest) := splitSign text
  let name := rest.map Char.toLower
  if name = "inf".toList ∨ name = "infinity".toList then some (.infinity negative)
  else if name = "nan".toList then some (.nan negative)
  else (readDecimal rest).map (fun read => .decimal negative read.1 read.2)

/-- The double nearest what is written. -/
def Written.bits : Written → BitVec 64
  | .decimal negative digits (.ofNat exponent) => signed negative (nearestBits (digits * 10 ^ exponent) 1)
  | .decimal negative digits (.negSucc exponent) =>
    signed negative (nearestBits digits (10 ^ (exponent + 1)))
  | .infinity negative => signed negative infinityBits
  | .nan negative => signed negative nanBits

/-- Read a double. -/
def parse (text : Text) : Option (BitVec 64) := (readWritten text).map Written.bits

example : parse "-2.5e-1".toList = parse "-.25".toList := by decide +kernel

/-! ## Exact numbers -/

/-- The fields of a double with given bits and sign. -/
theorem signed_fields {bits : Nat} (bounded : bits < 2 ^ 63) (sign : Bool) :
    exponent (signed sign bits) = bits / 2 ^ 52 % 2 ^ 11 ∧
      fraction (signed sign bits) = bits % 2 ^ 52 ∧
      (negative (signed sign bits) ↔ sign = true) := by
  have word : (signed sign bits).toNat = bits + if sign then 2 ^ 63 else 0 := by
    rw [signed, BitVec.toNat_ofNat]
    cases sign <;> simp <;> omega
  rw [exponent, fraction, negative, word]
  cases sign <;> simp <;> omega

/-- What a double is without its sign determines its magnitude, and whether it is finite. -/
theorem magnitude_signed (bits : BitVec 64) (sign : Bool) :
    magnitude (signed sign (bits.toNat % 2 ^ 63)) = magnitude bits ∧
      (Finite (signed sign (bits.toNat % 2 ^ 63)) ↔ Finite bits) := by
  obtain ⟨sameExponent, sameFraction, _⟩ :=
    signed_fields (Nat.mod_lt bits.toNat (by decide : 0 < 2 ^ 63)) sign
  have exponents : exponent (signed sign (bits.toNat % 2 ^ 63)) = exponent bits := by
    rw [sameExponent, exponent]
    omega
  have fractions : fraction (signed sign (bits.toNat % 2 ^ 63)) = fraction bits := by
    rw [sameFraction, fraction]
    omega
  exact ⟨by rw [magnitude, exponents, fractions, magnitude], by rw [Finite, exponents, Finite]⟩

/-- A finite double is the place of its magnitude and the digits above it. -/
theorem magnitude_digits (bits : BitVec 64) :
    2 ^ ((magnitude bits).log2 - 52) ∣ magnitude bits ∧
      ((magnitude bits).log2 - 52) * 2 ^ 52 + magnitude bits / 2 ^ ((magnitude bits).log2 - 52) =
        bits.toNat % 2 ^ 63 := by
  have fractionBound : fraction bits < 2 ^ 52 := Nat.mod_lt _ (by decide)
  have word : exponent bits * 2 ^ 52 + fraction bits = bits.toNat % 2 ^ 63 := by
    rw [exponent, fraction]
    have := bits.isLt
    omega
  by_cases subnormal : exponent bits = 0
  · have isFraction : magnitude bits = fraction bits := if_pos subnormal
    have place : (fraction bits).log2 - 52 = 0 := by
      rcases Nat.eq_zero_or_pos (fraction bits) with zero | positive
      · rw [zero]
        rfl
      · have := (Nat.log2_lt (Nat.pos_iff_ne_zero.mp positive)).mpr fractionBound
        omega
    rw [isFraction, place, ← word, subnormal]
    simp
  · have isScaled : magnitude bits = (2 ^ 52 + fraction bits) * 2 ^ (exponent bits - 1) :=
      if_neg subnormal
    have scaledPositive : magnitude bits ≠ 0 := by
      rw [isScaled]
      exact Nat.mul_ne_zero (by omega) (Nat.pos_iff_ne_zero.mp (Nat.two_pow_pos _))
    have isLog : (magnitude bits).log2 = 52 + (exponent bits - 1) := by
      rw [Nat.log2_eq_iff scaledPositive, isScaled]
      constructor
      · rw [Nat.pow_add]
        exact Nat.mul_le_mul_right _ (Nat.le_add_right _ _)
      · rw [Nat.add_right_comm, Nat.pow_add]
        exact Nat.mul_lt_mul_of_pos_right (by omega) (Nat.two_pow_pos _)
    rw [isLog, Nat.add_sub_cancel_left, isScaled, Nat.mul_div_cancel _ (Nat.two_pow_pos _)]
    refine ⟨Nat.dvd_mul_left _ _, ?_⟩
    rw [← word, ← Nat.succ_pred_eq_of_ne_zero subnormal, Nat.pred_eq_sub_one, Nat.succ_sub_one,
      Nat.succ_mul, Nat.add_assoc]

/-- A rational that some finite double has the magnitude of is not rounded. -/
theorem nearestBits_exact {numerator denominator : Nat} {bits : BitVec 64} (finite : Finite bits)
    (positive : 0 < denominator)
    (same : magnitude bits * denominator = numerator * 2 ^ unitExponent) :
    nearestBits numerator denominator = bits.toNat % 2 ^ 63 := by
  obtain ⟨divides, isWord⟩ := magnitude_digits bits
  have whole : numerator * 2 ^ unitExponent / denominator = magnitude bits := by
    rw [← same, Nat.mul_div_cancel _ positive]
  obtain ⟨count, isCount⟩ := divides
  obtain ⟨step, isStep⟩ : ∃ step, step = denominator * 2 ^ ((magnitude bits).log2 - 52) := ⟨_, rfl⟩
  have stepPositive : 0 < step := isStep ▸ Nat.mul_pos positive (Nat.two_pow_pos _)
  have counted : numerator * 2 ^ unitExponent = step * count := by
    rw [← same, isCount, isStep]
    ring
  have noRest : numerator * 2 ^ unitExponent % step = 0 := by
    rw [counted, Nat.mul_mod_right]
  have quotient : numerator * 2 ^ unitExponent / step = count := by
    rw [counted, Nat.mul_div_cancel_left _ stepPositive]
  have place : magnitude bits / 2 ^ ((magnitude bits).log2 - 52) = count := by
    conv_lhs => arg 1; rw [isCount]
    exact Nat.mul_div_cancel_left _ (Nat.two_pow_pos _)
  have bounded : bits.toNat % 2 ^ 63 ≤ infinityBits := by
    have notLast : bits.toNat / 2 ^ 52 % 2 ^ 11 ≠ 2047 := finite
    rw [infinityBits]
    omega
  rw [place] at isWord
  rw [nearestBits, whole, ← isStep, noRest, quotient, if_neg (by omega), isWord]
  exact Nat.min_eq_left bounded

/-- A sign as a factor. -/
def signFactor (negative : Bool) : ℚ := if negative then -1 else 1

/-- The value of a double is its magnitude under its sign. -/
theorem value_signed (bits : BitVec 64) (sign : Bool) :
    value (signed sign (bits.toNat % 2 ^ 63)) =
      signFactor sign * ((magnitude bits : ℚ) / 2 ^ unitExponent) := by
  obtain ⟨_, _, isSign⟩ := signed_fields (Nat.mod_lt bits.toNat (by decide : 0 < 2 ^ 63)) sign
  rw [value, units, (magnitude_signed bits sign).1]
  cases sign with
  | true =>
    rw [if_pos (isSign.mpr rfl), signFactor, if_pos rfl]
    push_cast
    ring
  | false =>
    rw [if_neg (fun negative => by cases isSign.mp negative), signFactor, if_neg (by decide)]
    push_cast
    ring

/-- The absolute value of a double is its magnitude, in units. -/
theorem abs_value (bits : BitVec 64) : |value bits| = (magnitude bits : ℚ) / 2 ^ unitExponent := by
  have positive : (0 : ℚ) < 2 ^ unitExponent := pow_pos (by decide) _
  rw [value, abs_div, abs_of_pos positive, units]
  split
  · push_cast
    rw [abs_neg, Nat.abs_cast]
  · push_cast
    rw [Nat.abs_cast]

/-- The double that a text writes. -/
def Written.Denotes : Written → BitVec 64 → Prop
  | .decimal negative digits exponent, bits =>
    Finite bits ∧ value bits = signFactor negative * (digits * 10 ^ exponent)
  | .infinity negative, bits => bits = signed negative infinityBits
  | .nan _, bits => IsNaN bits

/-- A decimal that has the magnitude of a finite double is read as its value. -/
theorem nearest_denotes {negative : Bool} {digits numerator denominator : Nat} {exponent : Int}
    (positive : 0 < denominator)
    (isQuotient : (digits * 10 ^ exponent : ℚ) = numerator / denominator) {bits : BitVec 64}
    (denotes : (Written.decimal negative digits exponent).Denotes bits) :
    (Written.decimal negative digits exponent).Denotes
      (signed negative (nearestBits numerator denominator)) := by
  obtain ⟨finite, same⟩ := denotes
  have sameMagnitude : (magnitude bits : ℚ) / 2 ^ unitExponent = numerator / denominator := by
    have nonnegative : (0 : ℚ) ≤ digits * 10 ^ exponent :=
      mul_nonneg (Nat.cast_nonneg _) (zpow_nonneg (by decide) _)
    have unsigned : |signFactor negative| = 1 := by cases negative <;> simp [signFactor]
    rw [← abs_value, same, abs_mul, unsigned, one_mul, abs_of_nonneg nonnegative, isQuotient]
  have crossed : magnitude bits * denominator = numerator * 2 ^ unitExponent := by
    have denominatorPositive : (0 : ℚ) < denominator := Nat.cast_pos.mpr positive
    have unitPositive : (0 : ℚ) < 2 ^ unitExponent := pow_pos (by decide) _
    rw [div_eq_div_iff unitPositive.ne' denominatorPositive.ne'] at sameMagnitude
    exact_mod_cast sameMagnitude
  rw [nearestBits_exact finite positive crossed]
  refine ⟨(magnitude_signed bits negative).2.mpr finite, ?_⟩
  rw [value_signed, sameMagnitude, isQuotient]

/-- What is written is read exactly if any double denotes it. -/
theorem Written.denotes_bits {written : Written} :
    written.Denotes written.bits ↔ ∃ bits, written.Denotes bits := by
  refine ⟨fun denotes => ⟨_, denotes⟩, ?_⟩
  rintro ⟨bits, denotes⟩
  match written with
  | .decimal negative digits (.ofNat exponent) =>
    refine nearest_denotes Nat.one_pos ?_ denotes
    rw [Int.ofNat_eq_natCast, zpow_natCast]
    push_cast
    ring
  | .decimal negative digits (.negSucc exponent) =>
    refine nearest_denotes (Nat.pow_pos (by decide)) ?_ denotes
    rw [zpow_negSucc]
    push_cast
    ring
  | .infinity negative => rfl
  | .nan negative =>
    show IsNaN (signed negative nanBits)
    cases negative <;> decide +kernel

/-! ## Integers -/

/-- A double has the value of an integer exactly when it has that many units. -/
theorem value_eq_iff {bits : BitVec 64} {integer : Int} :
    value bits = integer ↔ units bits = unitsOf integer := by
  have unitPositive : (0 : ℚ) < 2 ^ unitExponent := pow_pos (by decide) _
  rw [value, div_eq_iff unitPositive.ne', unitsOf]
  constructor
  · intro same
    exact_mod_cast same
  · intro same
    rw [same]
    push_cast
    rfl

/-- With enough places, a number of sixty-four bits is below a double of that exponent. -/
theorem scaled_le {unit top : Nat} (digits : Nat) (places : 64 + unit ≤ 52 + top) :
    2 ^ 64 * 2 ^ unit ≤ (2 ^ 52 + digits) * 2 ^ top := by
  calc 2 ^ 64 * 2 ^ unit = 2 ^ (64 + unit) := by rw [Nat.pow_add]
    _ ≤ 2 ^ (52 + top) := Nat.pow_le_pow_right (by decide) places
    _ = 2 ^ 52 * 2 ^ top := by rw [Nat.pow_add]
    _ ≤ (2 ^ 52 + digits) * 2 ^ top := Nat.mul_le_mul_right _ (Nat.le_add_right _ _)

/-- An infinite value would be above all 64-bit integers. -/
theorem finite_of_value {bits : BitVec 64} {integer : Int} (fits : integer.natAbs < 2 ^ 64)
    (same : value bits = integer) : Finite bits := by
  intro infinite
  have isMagnitude : magnitude bits = integer.natAbs * 2 ^ unitExponent := by
    have sameUnits := congrArg Int.natAbs (value_eq_iff.mp same)
    have absolute : (units bits).natAbs = magnitude bits := by
      rw [units]
      split <;> omega
    rw [← absolute, sameUnits, unitsOf, Int.natAbs_mul, Int.natAbs_natCast]
  have large : 2 ^ 64 * 2 ^ unitExponent ≤ magnitude bits := by
    have places : 64 + unitExponent ≤ 52 + (exponent bits - 1) := by
      rw [infinite]
      decide
    have notSubnormal : exponent bits ≠ 0 := by
      rw [infinite]
      decide
    have isScaled : magnitude bits = (2 ^ 52 + fraction bits) * 2 ^ (exponent bits - 1) :=
      if_neg notSubnormal
    rw [isScaled]
    exact scaled_le _ places
  rw [isMagnitude] at large
  exact absurd (Nat.le_of_mul_le_mul_right large (Nat.two_pow_pos _)) (by omega)

/-- A 64-bit integer is rounded to itself exactly when some double has its value. -/
theorem ofInteger_exact {integer : Int} (fits : integer.natAbs < 2 ^ 64) :
    (Finite (ofInteger integer) ∧ value (ofInteger integer) = integer) ↔
      ∃ bits, Finite bits ∧ value bits = integer := by
  refine ⟨fun exact => ⟨_, exact⟩, ?_⟩
  rintro ⟨bits, _, same⟩
  have sameUnits := value_eq_iff.mp same
  have rounded : value (ofInteger integer) = integer := by
    rw [value_eq_iff, ← sameUnits]
    exact Int.le_antisymm (ofInteger_le fits sameUnits.symm.le) (le_ofInteger fits sameUnits.le)
  exact ⟨finite_of_value fits rounded, rounded⟩

/-- The conversion to sixty-four bits saturates. -/
theorem toSigned_bounds (bits : BitVec 64) : -2 ^ 63 ≤ toSigned bits ∧ toSigned bits < 2 ^ 63 := by
  rw [toSigned]
  split <;> omega

/-- A double with the value of a 64-bit integer is cast to it. -/
theorem toSigned_exact {bits : BitVec 64} {integer : Int} (finite : Finite bits)
    (least : -2 ^ 63 ≤ integer) (most : integer < 2 ^ 63) (same : value bits = integer) :
    toSigned bits = integer := by
  have truncated : (units bits).tdiv (2 ^ unitExponent : Nat) = integer := by
    rw [value_eq_iff.mp same, unitsOf]
    exact Int.mul_tdiv_cancel _
      (Int.natCast_ne_zero.mpr (Nat.pos_iff_ne_zero.mp (Nat.two_pow_pos _)))
  rw [toSigned, if_neg finite.not_isNaN, truncated]
  omega

end Binary64
