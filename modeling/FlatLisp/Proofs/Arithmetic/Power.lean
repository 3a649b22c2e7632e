import FlatLisp.Proofs.Arithmetic.Conversion

/-!
# Integer powers

Repeated squaring keeps `acc * base ^ exponent` and stops at the first product that has no 64 bits.
Such a product is a factor of the power, so the power has no 64 bits either. This is not for the size
alone: the range reaches one further down than up, and a factor just above it could have come back by
a change of sign. The rest of the power is a square wherever that matters, and `2 ^ 63` is none.

Exponents of more than 32 bits are not squared out: all bases but three leave the range long before.
-/

namespace FlatLisp

/-! ## What leaves the range -/

/-- What is out of range stays there when it is multiplied by a positive integer. -/
theorem not_fits_mul {m k : Int} (hm : ¬Fits m) (hk : 1 ≤ k) : ¬Fits (m * k) := by
  rw [fits_iff] at hm ⊢
  rcases lt_or_ge m 0 with hneg | hpos
  · have : m * k ≤ m * 1 := mul_le_mul_of_nonpos_left hk hneg.le
    omega
  · have : m * 1 ≤ m * k := mul_le_mul_of_nonneg_left hk hpos
    omega

/-- What is larger than the range reaches is out of range, whatever its sign. -/
theorem not_fits_of_natAbs {n : Int} (h : 2 ^ 63 < n.natAbs) : ¬Fits n := by
  rw [fits_iff]
  omega

/-- A square that is out of range does not lie just above it. -/
theorem lt_natAbs_of_square {b : Int} (h : ¬Fits (b * b)) : 2 ^ 63 < (b * b).natAbs := by
  rw [fits_iff] at h
  have hsquare : 0 ≤ b * b := mul_self_nonneg b
  rw [Int.natAbs_mul] at *
  have hcast : (b.natAbs * b.natAbs : Int) = b * b := Int.natAbs_mul_self' b
  have hroot : 3037000500 ≤ b.natAbs := by
    by_contra hsmall
    have hle : b.natAbs ≤ 3037000499 := by omega
    have := Nat.mul_le_mul hle hle
    omega
  have := Nat.mul_le_mul hroot hroot
  omega

/-- A power is at least as large as its base, also with a further factor. -/
theorem natAbs_le_mul_pow {m : Int} (b : Int) {k : Nat} (hm : m ≠ 0) (hk : k ≠ 0) :
    b.natAbs ≤ (m * b ^ k).natAbs := by
  rw [Int.natAbs_mul, Int.natAbs_pow]
  calc b.natAbs ≤ b.natAbs ^ k := Nat.le_self_pow hk b.natAbs
    _ ≤ m.natAbs * b.natAbs ^ k := Nat.le_mul_of_pos_left _ (Int.natAbs_pos.mpr hm)

namespace Number

/-! ## Repeated squaring -/

/-- An odd power is the base times a square. -/
theorem mul_pow_odd (m b : Int) {n : Nat} (h : n % 2 = 1) :
    m * b ^ n = m * b * (b * b) ^ (n / 2) := by
  rw [← pow_two, ← pow_mul, mul_assoc, ← pow_succ']
  congr 2
  omega

/-- An even power is a power of the square. -/
theorem mul_pow_even (m b : Int) {n : Nat} (h : ¬n % 2 = 1) :
    m * b ^ n = m * (b * b) ^ (n / 2) := by
  rw [← pow_two, ← pow_mul]
  congr 2
  omega

/-- A product with the base that is out of range stays there: the rest of the power is a square. -/
theorem not_fits_of_product {m b : Int} {n : Nat} (h : ¬Fits (m * b)) (hn : n % 2 = 1) :
    ¬Fits (m * b ^ n) := by
  have hbase : b ≠ 0 := by
    rintro rfl
    apply h
    rw [mul_zero]
    decide
  have hrest : 0 < (b * b) ^ (n / 2) := pow_pos (mul_self_pos.mpr hbase) (n / 2)
  rw [mul_pow_odd m b hn]
  exact not_fits_mul h hrest

/-- A square of the base that is out of range puts the power there, with either sign. -/
theorem not_fits_of_square {m b : Int} {k : Nat} (h : ¬Fits (b * b)) (hm : m ≠ 0) (hk : k ≠ 0) :
    ¬Fits (m * (b * b) ^ k) := by
  apply not_fits_of_natAbs
  calc 2 ^ 63 < (b * b).natAbs := lt_natAbs_of_square h
    _ ≤ (m * (b * b) ^ k).natAbs := natAbs_le_mul_pow (b * b) hm hk

/-- Repeated squaring gives the power, if that has 64 bits. -/
theorem powerFrom?_eq (acc base : Int64) (n : Nat) (h : acc.toInt = 0 → base.toInt = 0) :
    powerFrom? acc base n = narrow? (acc.toInt * base.toInt ^ n) := by
  -- The induction is on the exponent, which is halved; a product of zero has a zero base, so that a
  -- base out of range always shows in the power.
  induction n using Nat.strong_induction_on generalizing acc base with
  | _ n ih =>
    have rest (m : Int64) (hzero : m.toInt = 0 → base.toInt = 0) (hn : n ≠ 0) :
        (if n = 1 then some m
          else (product? base base).bind fun square => powerFrom? m square (n / 2)) =
        narrow? (m.toInt * (base.toInt * base.toInt) ^ (n / 2)) := by
      split
      · next hone =>
        subst hone
        rw [Nat.div_eq_of_lt Nat.one_lt_two, pow_zero, mul_one, narrow?_toInt]
      · cases hsquare : product? base base with
        | none =>
          have hout := narrow?_eq_none_iff.mp hsquare
          have hm : m.toInt ≠ 0 := by
            intro heq
            apply hout
            rw [hzero heq]
            decide
          exact (narrow?_eq_none_iff.mpr (not_fits_of_square hout hm (by omega))).symm
        | some square =>
          have hexact : square.toInt = base.toInt * base.toInt := toInt_of_narrow? hsquare
          rw [← hexact]
          refine ih (n / 2) (by omega) m square fun heq => ?_
          rw [hexact, hzero heq, mul_zero]
    rw [powerFrom?]
    split
    · next hn =>
      rw [hn, pow_zero, mul_one, narrow?_toInt]
    · next hn =>
      by_cases hodd : n % 2 = 1
      · rw [if_pos hodd]
        cases hproduct : product? acc base with
        | none =>
          have hout := not_fits_of_product (narrow?_eq_none_iff.mp hproduct) hodd
          exact (narrow?_eq_none_iff.mpr hout).symm
        | some m =>
          have hexact : m.toInt = acc.toInt * base.toInt := toInt_of_narrow? hproduct
          rw [mul_pow_odd _ _ hodd, ← hexact]
          refine rest m (fun heq => ?_) hn
          rcases mul_eq_zero.mp (hexact.symm.trans heq) with hacc | hbase
          · exact h hacc
          · exact hbase
      · rw [if_neg hodd, mul_pow_even _ _ hodd]
        exact rest acc h hn

/-! ## Large exponents -/

/-- Powers of minus one. -/
theorem largePower?_neg_one (y : Int64) (h : 0 ≤ y.toInt) :
    largePower? (-1) y = narrow? ((-1) ^ y.toInt.toNat) := by
  have heven : y % 2 = 0 ↔ Even y.toInt.toNat := by
    rw [← Int64.toInt_inj, Int64.toInt_mod, Nat.even_iff]
    change y.toInt.tmod 2 = 0 ↔ _
    rw [Int.tmod_eq_emod_of_nonneg h]
    omega
  unfold largePower?
  rw [if_neg (by decide), if_pos rfl]
  by_cases hy : Even y.toInt.toNat
  · rw [if_pos (heven.mpr hy), hy.neg_one_pow]
    rfl
  · rw [if_neg (fun h => hy (heven.mp h)), (Nat.not_even_iff_odd.mp hy).neg_one_pow]
    rfl

/-- Other bases leave the range long before. -/
theorem not_fits_pow {b : Int} {n : Nat} (hb : 2 ≤ b.natAbs) (hn : 64 ≤ n) : ¬Fits (b ^ n) := by
  apply not_fits_of_natAbs
  rw [Int.natAbs_pow]
  calc 2 ^ 63 < 2 ^ 64 := by decide
    _ ≤ b.natAbs ^ 64 := Nat.pow_le_pow_left hb 64
    _ ≤ b.natAbs ^ n := Nat.pow_le_pow_right (by omega) hn

/-- The power to a large exponent, if it has 64 bits. -/
theorem largePower?_eq (x : Int64) {y : Int64} (h : 64 ≤ y.toInt) :
    largePower? x y = narrow? (x.toInt ^ y.toInt.toNat) := by
  have hn : y.toInt.toNat ≠ 0 := by omega
  by_cases hzero : x = 0
  · subst hzero
    rw [Int64.toInt_zero, zero_pow hn]
    rfl
  by_cases hone : x = 1
  · subst hone
    rw [Int64.toInt_one, one_pow]
    rfl
  by_cases hneg : x = -1
  · subst hneg
    exact largePower?_neg_one y (by omega)
  · have hlarge : 2 ≤ x.toInt.natAbs := by
      rw [← Int64.toInt_inj] at hzero hone hneg
      change ¬x.toInt = 0 at hzero
      change ¬x.toInt = 1 at hone
      change ¬x.toInt = -1 at hneg
      omega
    unfold largePower?
    rw [if_neg (by rw [not_or]; exact ⟨hzero, hone⟩), if_neg hneg]
    exact (narrow?_eq_none_iff.mpr (not_fits_pow hlarge (by omega))).symm

/-- The two ways to raise an integer to a power meet: both give it if it has 64 bits. -/
theorem intPower?_eq (x y : Int64) :
    intPower? x y = narrow? (x.toInt ^ y.toInt.toNat) := by
  unfold intPower?
  split
  · rw [powerFrom?_eq 1 x _ (fun hone => absurd hone (by decide)), Int64.toInt_one, one_mul]
  · next hlarge =>
    have hsize : UInt32.size = 4294967296 := rfl
    exact largePower?_eq x (by omega)

end Number

/-! ## Signs of floats

A zero base is refused under a negative exponent, and the exponent is looked at as a float for that. -/

open Float.Model (UnpackedFloat)
open Float.Model.Format (binary64)

/-- The sign is the bit of the highest place. -/
theorem unpackSign_eq_zero {b : BitVec 64} (h : b.toNat < 2 ^ 63) :
    @UnpackedFloat.unpackSign binary64 b = 0#1 := by
  apply BitVec.eq_of_toNat_eq
  rw [UnpackedFloat.unpackSign_def, BitVec.extractLsb'_toNat, Nat.shiftRight_eq_div_pow]
  have hsign : b.toNat / 2 ^ (52 + 11) = 0 := Nat.div_eq_of_lt h
  exact congrArg (· % 2 ^ 1) hsign

/-- What has a positive sign is not below zero. -/
theorem unpack_lt_zero {b : BitVec 64} (h : b.toNat < 2 ^ 63) :
    (UnpackedFloat.unpack binary64 b).lt (.zero .positive) = false := by
  have hsign : UnpackedFloat.Sign.ofBitVec (@UnpackedFloat.unpackSign binary64 b) = .positive := by
    rw [unpackSign_eq_zero h]
    rfl
  simp only [UnpackedFloat.unpack, hsign]
  split_ifs <;> rfl

/-- A float whose highest bit is zero is not below zero. -/
theorem not_ofBits_lt_zero {b : UInt64} (h : b.toNat < 2 ^ 63) : ¬Float.ofBits b < 0.0 := by
  have hmodel : (Float.Model.ofBits b).unpack.lt (.zero .positive) = false := by
    have hpacked := @UnpackedFloat.pack_unpack binary64 b.toBitVec (by decide)
    change (UnpackedFloat.unpack binary64 (UnpackedFloat.pack binary64
      (UnpackedFloat.unpack binary64 b.toBitVec))).lt (.zero .positive) = false
    rw [hpacked]
    split
    · rfl
    · exact unpack_lt_zero h
  intro hlt
  have hbelow : (Float.Model.ofBits b).unpack.lt (.zero .positive) = true := of_decide_eq_true hlt
  rw [hmodel] at hbelow
  cases hbelow

namespace Number

/-- An integer that is not negative is not negative as a float. -/
theorem not_floatOfInt_lt_zero {y : Int64} (h : 0 ≤ y.toInt) : ¬floatOfInt y < 0.0 := by
  have hinfinity : Binary64.infinityBits < 2 ^ 63 := by decide
  have hbits := (Binary64.nearestBits_le y.toInt.natAbs 0).trans_lt hinfinity
  unfold floatOfInt Binary64.ofInt Binary64.nearest
  rw [decide_eq_false (by omega)]
  apply not_ofBits_lt_zero
  rw [if_neg Bool.false_ne_true, UInt64.toNat_ofNat_of_lt' (hbits.trans (by decide))]
  exact hbits

/-- Powers of integers to exponents that are not negative are exact, or refused. -/
theorem power_int (x : Int64) {y : Int64} (h : 0 ≤ y.toInt) :
    power (.int x) (.int y) = exact "power" (x.toInt ^ y.toInt.toNat) := by
  have hexponent : isNegativeReal (.int y) = false := decide_eq_false (not_floatOfInt_lt_zero h)
  have hy : ¬y < 0 := by
    rw [Int64.lt_iff_toInt_lt, Int64.toInt_zero]
    omega
  unfold power exact
  rw [hexponent, Bool.and_false, ← intPower?_eq]
  simp only [promote, if_neg hy]
  rfl

end Number

open Number

variable {E : Type} [Embedding E]

/-- The power of a 64-bit integer to an exponent that is not negative is the exact one where that has
64 bits, and is refused as an overflow where it has not. -/
theorem integer_power_exact (id : Nat) (label : Option String) (s : ScopeId) (x y : Int64)
    (w : World E) (hy : 0 ≤ y) :
    (Fits (x.toInt ^ y.toInt.toNat) → ∃ n : Int64, n.toInt = x.toInt ^ y.toInt.toNat ∧
      (Builtin.power.callOn id label s x y w).1 = .ok (.int n)) ∧
    (¬Fits (x.toInt ^ y.toInt.toNat) →
      ∃ fault, fault.message = "integer overflow in power" ∧
        (Builtin.power.callOn id label s x y w).1 = .error (.domain fault)) := by
  have hexponent : 0 ≤ y.toInt := Int64.le_iff_toInt_le.mp hy
  rw [Builtin.callOn_eq power rfl, power_int x hexponent]
  refine ⟨fun hfits => ?_, fun hfits => ⟨.overflow "power", rfl, ?_⟩⟩
  · obtain ⟨n, hn⟩ := hfits.exists_toInt
    refine ⟨n, hn, ?_⟩
    rw [exact, narrow?_eq_some_iff.mpr hn]
    rfl
  · rw [exact, narrow?_eq_none_iff.mpr hfits]
    rfl

/-- The least integer is a power, and one exponent further is an overflow. -/
theorem integer_power_exact_leastInteger :
    (0 : Int64) ≤ 63 ∧ (0 : Int64) ≤ 64 ∧
      (Builtin.power.callOn 0 none 0 (-2) 63 (World.empty : World Empty)).1 =
        .ok (.int Int64.minValue) ∧
      ∃ fault, fault.message = "integer overflow in power" ∧
        (Builtin.power.callOn 0 none 0 (-2) 64 (World.empty : World Empty)).1 =
          .error (.domain fault) := by
  refine ⟨by decide, by decide, ?_, ?_⟩
  · obtain ⟨n, hn, hcall⟩ :=
      (integer_power_exact 0 none 0 (-2) 63 (World.empty : World Empty) (by decide)).1 (by decide)
    have hleast : n = Int64.minValue := Int64.toInt_inj.mp hn
    rw [hcall, hleast]
  · exact (integer_power_exact 0 none 0 (-2) 64 (World.empty : World Empty) (by decide)).2
      (by decide)

end FlatLisp
