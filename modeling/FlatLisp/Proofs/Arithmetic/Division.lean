import FlatLisp.Proofs.Arithmetic.Basic
import Mathlib.Data.Rat.Floor
import Mathlib.Tactic.FieldSimp
import Mathlib.Tactic.Linarith

/-!
# Floor division

The machine divides with the quotient cut off toward zero. Floor division takes one off the quotient,
and adds one divisor to the remainder, where something was cut off from a negative quotient. The two
corrections are made apart from each other, one by the signs of the operands and the other by the
sign of the remainder, and still belong to the same division with the quotient rounded down
(`IsFloorDivision`).

Only the quotient of the least integer by -1 has no 64 bits. The machine is not asked for it, nor for
the remainder of that division, and no correction leaves the range either (`StepsFit`).
-/

namespace FlatLisp

/-- The integers `q` and `r` are quotient and remainder of the division of `x` by `y` with the
quotient rounded down: the remainder lies between zero and the divisor. -/
structure IsFloorDivision (x y q r : Int) : Prop where
  divides : x = y * q + r
  range : 0 ≤ r ∧ r < y ∨ y < r ∧ r ≤ 0

namespace IsFloorDivision

variable {x y q r : Int}

/-- The quotient is the true quotient, rounded down. -/
theorem floor_eq (h : IsFloorDivision x y q r) : ⌊(x : ℚ) / y⌋ = q := by
  have hy : (y : ℚ) ≠ 0 := by
    have hne : y ≠ 0 := by
      have := h.range
      omega
    exact_mod_cast hne
  have hx : (x : ℚ) / y = q + r / y := by
    rw [h.divides]
    push_cast
    field_simp
  rw [Int.floor_eq_iff, hx]
  rcases h.range with ⟨hr, hlt⟩ | ⟨hlt, hr⟩
  · have hr' : (0 : ℚ) ≤ r := by exact_mod_cast hr
    have hlt' : (r : ℚ) < y := by exact_mod_cast hlt
    have hpos : (0 : ℚ) < y := lt_of_le_of_lt hr' hlt'
    have hnonneg : (0 : ℚ) ≤ r / y := div_nonneg hr' hpos.le
    have hbelow : (r : ℚ) / y < 1 := (div_lt_one hpos).mpr hlt'
    constructor <;> linarith
  · have hr' : (r : ℚ) ≤ 0 := by exact_mod_cast hr
    have hlt' : (y : ℚ) < r := by exact_mod_cast hlt
    have hneg : (y : ℚ) < 0 := lt_of_lt_of_le hlt' hr'
    have hnonneg : (0 : ℚ) ≤ r / y := div_nonneg_of_nonpos hr' hneg.le
    have hbelow : (r : ℚ) / y < 1 := (div_lt_one_of_neg hneg).mpr hlt'
    constructor <;> linarith

/-- The remainder is what the rounded quotient leaves. -/
theorem remainder_eq (h : IsFloorDivision x y q r) : r = x - y * ⌊(x : ℚ) / y⌋ := by
  have := h.divides
  rw [h.floor_eq]
  omega

/-- The remainder is smaller than the divisor. -/
theorem abs_lt (h : IsFloorDivision x y q r) : |r| < |y| := by
  have := h.range
  grind

/-- The remainder has the sign of the divisor, unless it is zero. -/
theorem sign (h : IsFloorDivision x y q r) : r = 0 ∨ (r < 0 ↔ y < 0) := by
  have := h.range
  omega

end IsFloorDivision

/-! ## The division of the machine -/

namespace Number

variable {x y : Int64}

/-- Whether the quotient that is cut off toward zero has to be corrected. -/
def NeedsCorrection (x y : Int) : Prop :=
  x.tmod y ≠ 0 ∧ (x < 0 ↔ ¬y < 0)

instance (x y : Int) : Decidable (NeedsCorrection x y) :=
  inferInstanceAs (Decidable (_ ∧ _))

/-- The remainder that belongs to the quotient cut off toward zero: it is smaller than the divisor and
has the sign of the dividend. -/
theorem tmod_range (x : Int) {y : Int} (hy : y ≠ 0) :
    |x.tmod y| < |y| ∧ (0 ≤ x → 0 ≤ x.tmod y) ∧ (x ≤ 0 → x.tmod y ≤ 0) := by
  refine ⟨?_, Int.tmod_nonneg y, fun hx => ?_⟩
  · rw [Int.abs_eq_natAbs, Int.abs_eq_natAbs, Int.natAbs_tmod]
    exact_mod_cast Nat.mod_lt _ (Int.natAbs_pos.mpr hy)
  · have hneg : 0 ≤ (-x).tmod y := Int.tmod_nonneg y (by omega)
    rw [Int.neg_tmod] at hneg
    omega

/-- Where nothing has to be corrected, the quotient is rounded down already. -/
theorem isFloorDivision_of_not_needsCorrection {x y : Int} (hy : y ≠ 0)
    (h : ¬NeedsCorrection x y) : IsFloorDivision x y (x.tdiv y) (x.tmod y) := by
  have hdivides := Int.mul_tdiv_add_tmod x y
  obtain ⟨habs, hnonneg, hnonpos⟩ := tmod_range x hy
  refine ⟨hdivides.symm, ?_⟩
  unfold NeedsCorrection at h
  rw [abs_lt] at habs
  grind

/-- Where something has to be corrected, one less is the quotient that is rounded down. -/
theorem isFloorDivision_of_needsCorrection {x y : Int} (hy : y ≠ 0) (h : NeedsCorrection x y) :
    IsFloorDivision x y (x.tdiv y - 1) (x.tmod y + y) := by
  have hdivides := Int.mul_tdiv_add_tmod x y
  obtain ⟨habs, hnonneg, hnonpos⟩ := tmod_range x hy
  unfold NeedsCorrection at h
  rw [abs_lt] at habs
  refine ⟨?_, ?_⟩
  · rw [Int.mul_sub]
    omega
  · grind

/-! ## Steps of the machine -/

/-- The quotient that is cut off has 64 bits, but for one. -/
theorem fits_tdiv (h : ¬(x = Int64.minValue ∧ y = -1)) : Fits (x.toInt.tdiv y.toInt) := by
  by_cases hneg : y = -1
  · have hmin : x.toInt ≠ -2 ^ 63 := by
      intro heq
      exact h ⟨Int64.toInt_inj.mp (heq.trans Int64.toInt_minValue.symm), hneg⟩
    have hle := Int.natAbs_tdiv_le_natAbs x.toInt y.toInt
    have hrange := fits_iff.mp (fits_toInt x)
    rw [fits_iff]
    omega
  · rw [← Int64.toInt_div_of_ne_right x y hneg]
    exact fits_toInt (x / y)

/-- The machine divides exactly where the quotient has 64 bits. -/
theorem toInt_quotient? {q : Int64} (h : quotient? x y = some q) :
    Fits (x.toInt.tdiv y.toInt) ∧ q.toInt = x.toInt.tdiv y.toInt := by
  unfold quotient? at h
  split at h
  · cases h
  · next hdefined =>
    cases h
    rw [not_or] at hdefined
    have hfits := fits_tdiv hdefined.2
    exact ⟨hfits, by rw [Int64.toInt_div, hfits.bmod_eq]⟩

/-- There is a quotient unless the divisor is zero or the quotient has no 64 bits. -/
theorem exists_quotient? (hy : y ≠ 0) (h : ¬(x = Int64.minValue ∧ y = -1)) :
    ∃ q, quotient? x y = some q := by
  refine ⟨x / y, if_neg ?_⟩
  rw [not_or]
  exact ⟨hy, h⟩

/-- The remainder is that of the machine, also where the machine is not asked. -/
theorem toInt_remainder (x y : Int64) : (remainder x y).toInt = x.toInt.tmod y.toInt := by
  unfold remainder
  split
  · next hneg =>
    have hone : y.toInt = -1 := congrArg Int64.toInt hneg
    rw [hone, Int.tmod_neg, Int.tmod_one]
    rfl
  · exact Int64.toInt_mod x y

/-- A quotient that has to be corrected is at most half as large as the range allows. -/
theorem fits_tdiv_sub_one (hy : y ≠ 0) (h : NeedsCorrection x.toInt y.toInt) :
    Fits (x.toInt.tdiv y.toInt - 1) := by
  have hlarge : 2 ≤ y.toInt.natAbs := by
    have hzero : y.toInt ≠ 0 := fun heq => hy (Int64.toInt_inj.mp heq)
    have hone : y.toInt.natAbs ≠ 1 := by
      intro heq
      apply h.1
      rw [← Int.natAbs_eq_zero, Int.natAbs_tmod, heq, Nat.mod_one]
    omega
  have hhalf : (x.toInt.tdiv y.toInt).natAbs ≤ x.toInt.natAbs / 2 := by
    rw [Int.natAbs_tdiv]
    exact Nat.div_le_div_left hlarge Nat.two_pos
  have hrange := fits_iff.mp (fits_toInt x)
  rw [fits_iff]
  omega

/-- A remainder that has to be corrected and the divisor have different signs. -/
theorem fits_tmod_add (h : NeedsCorrection x.toInt y.toInt) :
    Fits (x.toInt.tmod y.toInt + y.toInt) := by
  have hrem := fits_iff.mp (fits_toInt (x % y))
  have hdivisor := fits_iff.mp (fits_toInt y)
  rw [Int64.toInt_mod] at hrem
  have hsign : x.toInt < 0 → x.toInt.tmod y.toInt ≤ 0 := fun hx => by
    have hneg : 0 ≤ (-x.toInt).tmod y.toInt := Int.tmod_nonneg y.toInt (by omega)
    rw [Int.neg_tmod] at hneg
    omega
  have hsign' : 0 ≤ x.toInt → 0 ≤ x.toInt.tmod y.toInt := Int.tmod_nonneg y.toInt
  have hcases := h.2
  rw [fits_iff]
  omega

/-! ## Corrections -/

/-- The quotient is corrected where that is needed. -/
theorem corrects_quotient_iff :
    (x % y != 0 && decide (x < 0) != decide (y < 0)) = true ↔ NeedsCorrection x.toInt y.toInt := by
  have hzero : x % y ≠ 0 ↔ x.toInt.tmod y.toInt ≠ 0 := by
    rw [← Int64.toInt_mod, ← Int64.toInt_zero, Ne, Ne, Int64.toInt_inj]
  simp only [Bool.and_eq_true, bne_iff_ne, ne_eq, decide_eq_decide, NeedsCorrection,
    Int64.lt_iff_toInt_lt, Int64.toInt_zero]
  rw [← Ne, hzero]
  tauto

/-- The remainder is corrected where that is needed, although its own sign is looked at and not that of
the dividend. -/
theorem corrects_remainder_iff (hy : y ≠ 0) :
    (remainder x y != 0 && decide (remainder x y < 0) != decide (y < 0)) = true ↔
      NeedsCorrection x.toInt y.toInt := by
  have hzero : remainder x y ≠ 0 ↔ x.toInt.tmod y.toInt ≠ 0 := by
    rw [← toInt_remainder, ← Int64.toInt_zero, Ne, Ne, Int64.toInt_inj]
  have hdivisor : y.toInt ≠ 0 := fun heq => hy (Int64.toInt_inj.mp heq)
  obtain ⟨-, hnonneg, hnonpos⟩ := tmod_range x.toInt hdivisor
  simp only [Bool.and_eq_true, bne_iff_ne, ne_eq, decide_eq_decide, NeedsCorrection,
    Int64.lt_iff_toInt_lt, Int64.toInt_zero, toInt_remainder]
  rw [← Ne, hzero]
  grind

/-- What the quotient comes to. -/
theorem toInt_floorQuotient? (hy : y ≠ 0) {q : Int64} (h : floorQuotient? x y = some q) :
    q.toInt = if NeedsCorrection x.toInt y.toInt then x.toInt.tdiv y.toInt - 1
      else x.toInt.tdiv y.toInt := by
  obtain ⟨quotient, hquotient, rfl⟩ := Option.map_eq_some_iff.mp h
  obtain ⟨-, hexact⟩ := toInt_quotient? hquotient
  simp only [corrects_quotient_iff]
  split
  · next hneeds =>
    have hfits := fits_tdiv_sub_one hy hneeds
    rw [← hexact] at hfits ⊢
    rw [Int64.toInt_sub, Int64.toInt_one, hfits.bmod_eq]
  · exact hexact

/-- What the remainder comes to. -/
theorem toInt_intModulo (hy : y ≠ 0) :
    (intModulo x y).toInt = if NeedsCorrection x.toInt y.toInt then x.toInt.tmod y.toInt + y.toInt
      else x.toInt.tmod y.toInt := by
  unfold intModulo
  simp only [corrects_remainder_iff hy]
  split
  · next hneeds =>
    have hfits := fits_tmod_add hneeds
    rw [Int64.toInt_add, toInt_remainder, hfits.bmod_eq]
  · exact toInt_remainder x y

/-- No step of the machine that the two operations take for `x` and `y` leaves 64 bits. A remainder is
defined where the quotient that belongs to it is. -/
structure StepsFit (x y : Int64) : Prop where
  quotient_defined : ∀ q, quotient? x y = some q → y ≠ 0 ∧ Fits (x.toInt.tdiv y.toInt)
  remainder_defined : y ≠ -1 → y ≠ 0 ∧ Fits (x.toInt.tdiv y.toInt)
  quotient_corrected : ∀ q, quotient? x y = some q →
    (x % y != 0 && decide (x < 0) != decide (y < 0)) = true → Fits (q.toInt - 1)
  remainder_corrected :
    (remainder x y != 0 && decide (remainder x y < 0) != decide (y < 0)) = true →
      Fits ((remainder x y).toInt + y.toInt)

/-- The steps of the machine stay in range for every divisor but zero. -/
theorem stepsFit (x : Int64) {y : Int64} (hy : y ≠ 0) : StepsFit x y where
  quotient_defined _ hq := ⟨hy, (toInt_quotient? hq).1⟩
  remainder_defined hneg := ⟨hy, fits_tdiv fun h => hneg h.2⟩
  quotient_corrected q hq hcorrects := by
    rw [(toInt_quotient? hq).2]
    exact fits_tdiv_sub_one hy (corrects_quotient_iff.mp hcorrects)
  remainder_corrected hcorrects := by
    rw [toInt_remainder]
    exact fits_tmod_add ((corrects_remainder_iff hy).mp hcorrects)

/-! ## The operations -/

/-- The two operations on integers, where there is a quotient, belong to one floor division. -/
theorem isFloorDivision_floorQuotient? (hy : y ≠ 0) {q : Int64} (h : floorQuotient? x y = some q) :
    IsFloorDivision x.toInt y.toInt q.toInt (intModulo x y).toInt := by
  have hdivisor : y.toInt ≠ 0 := fun heq => hy (Int64.toInt_inj.mp heq)
  rw [toInt_floorQuotient? hy h, toInt_intModulo hy]
  split
  · next hneeds => exact isFloorDivision_of_needsCorrection hdivisor hneeds
  · next hneeds => exact isFloorDivision_of_not_needsCorrection hdivisor hneeds

/-- The remainder belongs to a floor division of integers, also where its quotient has no 64 bits. -/
theorem exists_isFloorDivision_intModulo (x : Int64) (hy : y ≠ 0) :
    ∃ q, IsFloorDivision x.toInt y.toInt q (intModulo x y).toInt := by
  have hdivisor : y.toInt ≠ 0 := fun heq => hy (Int64.toInt_inj.mp heq)
  rw [toInt_intModulo hy]
  split
  · next hneeds => exact ⟨_, isFloorDivision_of_needsCorrection hdivisor hneeds⟩
  · next hneeds => exact ⟨_, isFloorDivision_of_not_needsCorrection hdivisor hneeds⟩

/-- Zero is refused as a divisor, and no other integer. -/
theorem requireNonzero_int (y : Int64) :
    requireNonzero (.int y) = if y = 0 then .error (.domain .zeroDivisor) else .ok () := by
  unfold requireNonzero isZero
  simp only [beq_iff_eq]

/-- Floor division of integers. -/
theorem floorDiv_int (x : Int64) (hy : y ≠ 0) :
    floorDiv (.int x) (.int y) = orOverflow "division" (floorQuotient? x y) := by
  unfold floorDiv
  rw [requireNonzero_int, if_neg hy]
  rfl

/-- The remainder of floor division of integers. -/
theorem modulo_int (x : Int64) (hy : y ≠ 0) :
    modulo (.int x) (.int y) = .ok (.int (intModulo x y)) := by
  unfold modulo
  rw [requireNonzero_int, if_neg hy]
  rfl

end Number

open Number

variable {E : Type} [Embedding E]

/-- Floor division of 64-bit integers is exact. The modulus is what the quotient rounded down leaves of
the dividend; together with the quotient it gives the dividend again. One quotient has no 64 bits and
is refused, and a zero divisor is refused by both operations. No step of the machine leaves 64 bits. -/
theorem floor_division_exact (id : Nat) (label : Option String) (s : ScopeId) (x y : Int64)
    (w : World E) :
    (y = 0 →
      (Builtin.floorDiv.callOn id label s x y w).1 = .error (.domain .zeroDivisor) ∧
      (Builtin.modulo.callOn id label s x y w).1 = .error (.domain .zeroDivisor)) ∧
    (y ≠ 0 → ∃ r : Int64,
      (Builtin.modulo.callOn id label s x y w).1 = .ok (.int r) ∧
      r.toInt = x.toInt - y.toInt * ⌊(x.toInt : ℚ) / y.toInt⌋ ∧
      (r.toInt = 0 ∨ (r.toInt < 0 ↔ y.toInt < 0)) ∧ |r.toInt| < |y.toInt| ∧
      (x = Int64.minValue ∧ y = -1 →
        (Builtin.floorDiv.callOn id label s x y w).1 = .error (.domain (.overflow "division")) ∧
        r = 0) ∧
      (¬(x = Int64.minValue ∧ y = -1) → ∃ q : Int64,
        (Builtin.floorDiv.callOn id label s x y w).1 = .ok (.int q) ∧
        q.toInt = ⌊(x.toInt : ℚ) / y.toInt⌋ ∧ x.toInt = y.toInt * q.toInt + r.toInt) ∧
      StepsFit x y) := by
  rw [Builtin.callOn_eq floorDiv rfl, Builtin.callOn_eq modulo rfl]
  refine ⟨fun hzero => ?_, fun hy => ⟨intModulo x y, ?_⟩⟩
  · subst hzero
    exact ⟨rfl, rfl⟩
  · rw [floorDiv_int x hy, modulo_int x hy]
    obtain ⟨q₀, hdivision⟩ := exists_isFloorDivision_intModulo x hy
    refine ⟨rfl, hdivision.remainder_eq, hdivision.sign, hdivision.abs_lt, ?_, ?_, stepsFit x hy⟩
    · rintro ⟨rfl, rfl⟩
      exact ⟨rfl, rfl⟩
    · intro hdefined
      obtain ⟨quotient, hquotient⟩ := exists_quotient? hy hdefined
      obtain ⟨q, hq⟩ : ∃ q, floorQuotient? x y = some q := by
        unfold floorQuotient?
        rw [hquotient]
        exact ⟨_, rfl⟩
      have hfloor := isFloorDivision_floorQuotient? hy hq
      refine ⟨q, ?_, hfloor.floor_eq.symm, hfloor.divides⟩
      rw [hq]
      rfl

end FlatLisp
