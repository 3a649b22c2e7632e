import FlatLisp.Proofs.Arithmetic.Basic
import Mathlib

/-!
# Integers as floats

The float nearest to an integer, bit by bit. Its bits are the place of the first bit of the integer,
followed by the first 53 bits, rounded (`significand`). A significand that is rounded up to a further
bit carries into the place, which is just what the next float needs; so the bits grow with the integer,
and the place of the float among all floats does too (`placeOfInt_mono`). It does not grow strictly:
from `2 ^ 53` on, different integers may have the same float.

What is no number is the only float without a place. The lemmas about packing and unpacking the bits of
a float (`pack_unpack`, `isNaN_unpack_iff_of_valid`) come with the whole of Mathlib and with no part of
it, so it is imported whole here.
-/

namespace FlatLisp.Binary64

open Float.Model (UnpackedFloat)
open Float.Model.Format (binary64)

/-! ## Bits -/

/-- The bits of what is no number stand above those of infinity. -/
theorem isNaNBits_iff (b : BitVec 64) :
    @UnpackedFloat.isNaNBits binary64 b = true ↔ infinityBits < b.toNat % 2 ^ 63 := by
  have hexponent : (@UnpackedFloat.unpackExponent binary64 b).toNat = b.toNat / 2 ^ 52 % 2 ^ 11 := by
    rw [UnpackedFloat.unpackExponent_def, BitVec.extractLsb'_toNat, Nat.shiftRight_eq_div_pow]
  have hmantissa : (@UnpackedFloat.unpackMantissa binary64 b).toNat = b.toNat % 2 ^ 52 := by
    rw [UnpackedFloat.unpackMantissa_def, BitVec.extractLsb'_toNat, Nat.shiftRight_zero]
  have hinfinity : infinityBits = 2047 * 2 ^ 52 := rfl
  simp only [UnpackedFloat.isNaNBits, decide_eq_true_eq]
  rw [← BitVec.toNat_inj, Ne, ← BitVec.toNat_inj, hexponent, hmantissa, hinfinity]
  change b.toNat / 2 ^ 52 % 2 ^ 11 = 2047 ∧ ¬b.toNat % 2 ^ 52 = 0 ↔ _
  omega

/-- A float keeps the bits that it was made of, unless they stand for what is no number. -/
theorem toBits_ofBits {b : UInt64} (h : b.toNat % 2 ^ 63 ≤ infinityBits) :
    (Float.ofBits b).toBits = b := by
  have hnumber : ¬@UnpackedFloat.isNaNBits binary64 b.toBitVec = true := by
    rw [isNaNBits_iff]
    exact Nat.not_lt.mpr h
  have hpacked := @UnpackedFloat.pack_unpack binary64 b.toBitVec (by decide)
  rw [if_neg hnumber] at hpacked
  exact congrArg UInt64.ofBitVec hpacked

/-- What is no number is told by its bits. -/
theorem isNaN_iff {x : Float} : x.isNaN = true ↔ infinityBits < x.toBits.toNat % 2 ^ 63 := by
  have hvalid : binary64.Valid x.toBits.toBitVec := x.toModel.valid
  have hcanonical : x.isNaN = true ↔ x.toBits.toBitVec = UnpackedFloat.packedNaN binary64 :=
    UnpackedFloat.isNaN_unpack_iff_of_valid hvalid (by decide)
  change _ ↔ infinityBits < x.toBits.toBitVec.toNat % 2 ^ 63
  rw [hcanonical, ← isNaNBits_iff]
  constructor
  · intro h
    rw [h]
    exact UnpackedFloat.isNaNBits_packedNaN
  · intro h
    obtain ⟨hexponent, hmantissa⟩ := of_decide_eq_true h
    exact hvalid.eq_packedNaN hexponent hmantissa

/-- Every float has a place among the floats, but for what is no number. -/
theorem rank?_eq_none_iff {x : Float} : rank? x = none ↔ x.isNaN = true := by
  rw [isNaN_iff]
  simp only [rank?, ite_eq_left_iff, reduceCtorEq, imp_false, not_not]
  exact Iff.rfl

/-- Rounding gives no more bits than those of infinity. -/
theorem nearestBits_le (mantissa : Nat) (exponent : Int) :
    nearestBits mantissa exponent ≤ infinityBits := by
  unfold nearestBits
  split
  · exact Nat.zero_le infinityBits
  · exact Nat.min_le_right _ infinityBits

/-- The bits of a rounded number are its sign and then those of its magnitude. -/
theorem toNat_toBits_nearest (negative : Bool) (mantissa : Nat) (exponent : Int) :
    (nearest negative mantissa exponent).toBits.toNat =
      (if negative then 2 ^ 63 else 0) + nearestBits mantissa exponent := by
  have hbits : nearestBits mantissa exponent ≤ 2047 * 2 ^ 52 := nearestBits_le mantissa exponent
  have hword : (UInt64.ofNat (if negative then twoPow 63 + nearestBits mantissa exponent
      else nearestBits mantissa exponent)).toNat =
      (if negative then 2 ^ 63 else 0) + nearestBits mantissa exponent := by
    rw [UInt64.toNat_ofNat_of_lt']
    · cases negative <;> simp [twoPow]
    · cases negative <;> simp [twoPow, UInt64.size] <;> omega
  unfold nearest
  rw [toBits_ofBits]
  · exact hword
  · rw [hword]
    change _ ≤ 2047 * 2 ^ 52
    cases negative <;> simp <;> omega

/-- The sign and the magnitude of a rounded number. -/
theorem sign_magnitude_nearest (negative : Bool) (mantissa : Nat) (exponent : Int) :
    isNegative (nearest negative mantissa exponent) = negative ∧
      (nearest negative mantissa exponent).toBits.toNat % 2 ^ 63 =
        nearestBits mantissa exponent := by
  have hbits : nearestBits mantissa exponent ≤ 2047 * 2 ^ 52 := nearestBits_le mantissa exponent
  unfold isNegative
  rw [toNat_toBits_nearest]
  change decide (2 ^ 63 ≤ _) = _ ∧ _
  cases negative with
  | false => exact ⟨decide_eq_false (by simp; omega), by simp; omega⟩
  | true => exact ⟨decide_eq_true (by simp), by simp; omega⟩

/-- The place of a rounded number is given by its bits. -/
theorem rank?_nearest (negative : Bool) (mantissa : Nat) (exponent : Int) :
    rank? (nearest negative mantissa exponent) =
      some (Numeral.signed negative (nearestBits mantissa exponent)) := by
  obtain ⟨hsign, hmagnitude⟩ := sign_magnitude_nearest negative mantissa exponent
  change _ % twoPow 63 = _ at hmagnitude
  simp only [rank?, hsign, hmagnitude]
  rw [if_neg (Nat.not_lt.mpr (nearestBits_le mantissa exponent))]
  rfl

/-! ## Rounding of significands -/

/-- Rounding in figures. -/
theorem shiftRightEven_eq (m shift : Nat) :
    shiftRightEven m shift =
      if 2 ^ shift < 2 * (m % 2 ^ shift) ∨
        (2 * (m % 2 ^ shift) = 2 ^ shift ∧ m / 2 ^ shift % 2 = 1) then m / 2 ^ shift + 1
      else m / 2 ^ shift := rfl

/-- The rounded quotient is off by half a unit at most, and by half a unit only if it is even. -/
theorem shiftRightEven_spec (m shift : Nat) :
    2 * m ≤ 2 * (shiftRightEven m shift * 2 ^ shift) + 2 ^ shift ∧
    2 * (shiftRightEven m shift * 2 ^ shift) ≤ 2 * m + 2 ^ shift ∧
    (2 * m = 2 * (shiftRightEven m shift * 2 ^ shift) + 2 ^ shift ∨
      2 * (shiftRightEven m shift * 2 ^ shift) = 2 * m + 2 ^ shift →
      shiftRightEven m shift % 2 = 0) := by
  have hm := Nat.div_add_mod' m (2 ^ shift)
  have hrest := Nat.mod_lt m (Nat.two_pow_pos shift)
  rw [shiftRightEven_eq]
  split_ifs
  · rw [Nat.add_mul]
    omega
  · omega

/-- What divides evenly is not rounded. -/
theorem shiftRightEven_mul (k shift : Nat) : shiftRightEven (k * 2 ^ shift) shift = k := by
  have hpos := Nat.two_pow_pos shift
  rw [shiftRightEven_eq, Nat.mul_div_cancel k hpos, Nat.mul_mod_left, if_neg (by omega)]

/-- Rounding keeps the order. -/
theorem shiftRightEven_mono {m n : Nat} (shift : Nat) (h : m ≤ n) :
    shiftRightEven m shift ≤ shiftRightEven n shift := by
  by_contra hlt
  obtain ⟨-, hm, -⟩ := shiftRightEven_spec m shift
  obtain ⟨hn, -, -⟩ := shiftRightEven_spec n shift
  have hstep : (shiftRightEven n shift + 1) * 2 ^ shift ≤ shiftRightEven m shift * 2 ^ shift :=
    Nat.mul_le_mul_right _ (by omega)
  rw [Nat.add_mul] at hstep
  -- two quotients in the wrong order are each off by half a unit, toward each other
  have heq : m = n := by omega
  rw [heq] at hlt
  exact hlt (Nat.le_refl _)

/-- The significand of the float nearest to a natural number that is not zero: its first 53 bits,
rounded. -/
def significand (n : Nat) : Nat :=
  if n.log2 ≤ 52 then n * 2 ^ (52 - n.log2) else shiftRightEven n (n.log2 - 52)

/-- A significand has 53 bits, or is the first number that has more. -/
theorem significand_bounds {n : Nat} (h : n ≠ 0) :
    2 ^ 52 ≤ significand n ∧ significand n ≤ 2 ^ 53 := by
  have hlow := Nat.log2_self_le h
  have hhigh : n < 2 ^ (n.log2 + 1) := Nat.lt_log2_self
  unfold significand
  split
  · next hsmall =>
    have hlow' := Nat.mul_le_mul_right (2 ^ (52 - n.log2)) hlow
    have hhigh' := Nat.mul_le_mul_right (2 ^ (52 - n.log2)) hhigh.le
    rw [← pow_add] at hlow' hhigh'
    rw [show n.log2 + (52 - n.log2) = 52 by omega] at hlow'
    rw [show n.log2 + 1 + (52 - n.log2) = 53 by omega] at hhigh'
    exact ⟨hlow', hhigh'⟩
  · next hlarge =>
    obtain ⟨shift, hshift⟩ : ∃ shift, n.log2 = 52 + shift := ⟨n.log2 - 52, by omega⟩
    rw [hshift, pow_add] at hlow
    rw [hshift, Nat.add_right_comm, pow_add] at hhigh
    rw [hshift, Nat.add_sub_cancel_left]
    have hlow' := shiftRightEven_mono shift hlow
    have hhigh' := shiftRightEven_mono shift hhigh.le
    rw [shiftRightEven_mul] at hlow' hhigh'
    exact ⟨hlow', hhigh'⟩

/-- Among numbers of one length, the significand keeps the order. -/
theorem significand_mono {m n : Nat} (h : m ≤ n) (hlog : m.log2 = n.log2) :
    significand m ≤ significand n := by
  unfold significand
  rw [hlog]
  split
  · exact Nat.mul_le_mul_right _ h
  · exact shiftRightEven_mono _ h

/-- The bits of the float nearest to a natural number: the place of its first bit, and its significand
with the first bit carried into the place. -/
theorem nearestBits_eq {n : Nat} (h : n ≠ 0) :
    nearestBits n 0 = min ((n.log2 + 1022) * 2 ^ 52 + significand n) infinityBits := by
  have hlast : max ((n.log2 : Int) + 0 - 52) minExponent = n.log2 - 52 := by
    unfold minExponent
    omega
  have hplace : ((n.log2 : Int) - 52 - minExponent).toNat = n.log2 + 1022 := by
    unfold minExponent
    omega
  simp only [nearestBits, if_neg h, hlast, hplace, significand, twoPow, Nat.pow_eq]
  by_cases hsmall : n.log2 ≤ 52
  · have hshift : (0 - ((n.log2 : Int) - 52)).toNat = 52 - n.log2 := by omega
    rw [if_pos (by omega), if_pos hsmall, hshift]
  · have hshift : ((n.log2 : Int) - 52 - 0).toNat = n.log2 - 52 := by omega
    rw [if_neg (by omega), if_neg hsmall, hshift]

/-- The bits of the float nearest to a natural number grow with the number. -/
theorem nearestBits_mono {m n : Nat} (h : m ≤ n) : nearestBits m 0 ≤ nearestBits n 0 := by
  by_cases hm : m = 0
  · rw [hm]
    exact Nat.zero_le _
  have hn : n ≠ 0 := by omega
  have hlog : m.log2 ≤ n.log2 := by
    rw [Nat.le_log2 hn]
    exact (Nat.log2_self_le hm).trans h
  rw [nearestBits_eq hm, nearestBits_eq hn]
  apply min_le_min_right
  rcases hlog.lt_or_eq with hlt | heq
  · have hupper := (significand_bounds hm).2
    have hlower := (significand_bounds hn).1
    omega
  · have hsignificand := significand_mono h heq
    omega

/-! ## The order of integers as floats -/

/-- The place among all floats of the float nearest to an integer. -/
def placeOfInt (n : Int) : Int :=
  Numeral.signed (decide (n < 0)) (nearestBits n.natAbs 0)

/-- The float nearest to an integer is a number, and stands at its place. -/
theorem rank?_ofInt (n : Int) : rank? (ofInt n) = some (placeOfInt n) :=
  rank?_nearest (decide (n < 0)) n.natAbs 0

/-- Integers keep their order as floats. -/
theorem placeOfInt_mono {m n : Int} (h : m ≤ n) : placeOfInt m ≤ placeOfInt n := by
  unfold placeOfInt Numeral.signed
  by_cases hn : n < 0
  · have hbits := nearestBits_mono (m := n.natAbs) (n := m.natAbs) (by omega)
    simp only [hn, h.trans_lt hn, decide_true, if_true]
    omega
  · by_cases hm : m < 0
    · simp only [hm, hn, decide_true, decide_false, if_true, Bool.false_eq_true, if_false]
      omega
    · have hbits := nearestBits_mono (m := m.natAbs) (n := n.natAbs) (by omega)
      simp only [hm, hn, decide_false, Bool.false_eq_true, if_false]
      omega

end FlatLisp.Binary64
