import FlatLisp.Proofs.Arithmetic.Conversion

/-!
# Whole numbers

An integer that is taken for a float, made whole and taken back. The float stands for the integer that
its significand gives (`roundedNat`), which is whole already, so no way of making numbers whole changes
it. Among the integers that are floats it is the nearest one, and of two the even one
(`IsNearestFloat`); all that follows is derived from this alone. The last float of 64 bits is odd, so
integers from halfway to `2 ^ 63` on are rounded to a number that has no 64 bits any more.

Of the host functions that give integers, those that look for an integer first keep it. Those that make
any real number a float first keep only the integers that are floats.
-/

namespace FlatLisp

namespace Binary64

/-! ## Back to integers -/

/-- The natural number that the float nearest to `n` stands for. -/
def roundedNat (n : Nat) : Nat :=
  if n.log2 ≤ 52 then n else significand n * 2 ^ (n.log2 - 52)

/-- A finite float is taken apart by its sign and the bits of its magnitude. -/
theorem parts_eq {x : Float} {bits : Nat} (hbits : x.toBits.toNat % 2 ^ 63 = bits)
    (hfinite : bits < infinityBits) :
    parts x = if bits < 2 ^ 52 then .finite (isNegative x) bits minExponent
      else .finite (isNegative x) (2 ^ 52 + bits % 2 ^ 52)
        ((bits / 2 ^ 52 : Nat) + minExponent - 1) := by
  have hinfinity : infinityBits = 2047 * 2 ^ 52 := rfl
  have hplace : x.toBits.toNat / 2 ^ 52 % 2 ^ 11 = bits / 2 ^ 52 := by omega
  have hfraction : x.toBits.toNat % 2 ^ 52 = bits % 2 ^ 52 := by omega
  simp only [parts, twoPow, Nat.pow_eq, hplace, hfraction]
  rw [if_neg (by omega)]
  by_cases hsmall : bits < 2 ^ 52
  · rw [if_pos (by omega), if_pos hsmall, Nat.mod_eq_of_lt hsmall]
    rfl
  · rw [if_neg (by omega), if_neg hsmall]
    rfl

/-- Up to 53 bits nothing is carried. -/
theorem significand_lt {n : Nat} (h : n.log2 ≤ 52) : significand n < 2 ^ 53 := by
  have hhigh : n < 2 ^ (n.log2 + 1) := Nat.lt_log2_self
  rw [significand, if_pos h]
  calc n * 2 ^ (52 - n.log2) < 2 ^ (n.log2 + 1) * 2 ^ (52 - n.log2) :=
        Nat.mul_lt_mul_of_pos_right hhigh (Nat.two_pow_pos _)
    _ = 2 ^ 53 := by
        rw [← pow_add]
        congr 1
        omega

/-- The float nearest to a natural number, taken apart: it stands for the rounded number, and if its
last bit counts less than one then nothing was rounded. -/
theorem exists_parts_nearest (negative : Bool) {n : Nat} (h : n.log2 < 1000) :
    ∃ mantissa exponent, parts (nearest negative n 0) = .finite negative mantissa exponent ∧
      (0 ≤ exponent ∧ mantissa * 2 ^ exponent.toNat = roundedNat n ∨
        exponent < 0 ∧ mantissa = n * 2 ^ (-exponent).toNat ∧ roundedNat n = n) := by
  have hinfinity : infinityBits = 2047 * 2 ^ 52 := rfl
  obtain ⟨hsign, hbits⟩ := sign_magnitude_nearest negative n 0
  by_cases hn : n = 0
  · subst hn
    refine ⟨0, minExponent, ?_, .inr ⟨by decide, by simp, rfl⟩⟩
    rw [parts_eq hbits (by decide), hsign]
    rfl
  obtain ⟨hlow, hhigh⟩ := significand_bounds hn
  rw [nearestBits_eq hn, Nat.min_eq_left (by omega)] at hbits
  rw [parts_eq hbits (by omega), if_neg (by omega), hsign]
  by_cases hcarry : significand n < 2 ^ 53
  · refine ⟨significand n, n.log2 - 52, ?_, ?_⟩
    · unfold minExponent
      congr 1 <;> omega
    · by_cases hsmall : n.log2 < 52
      · right
        have hshift : (-((n.log2 : Int) - 52)).toNat = 52 - n.log2 := by omega
        rw [hshift, significand, roundedNat, if_pos hsmall.le, if_pos hsmall.le]
        exact ⟨by omega, rfl, rfl⟩
      · left
        have hshift : ((n.log2 : Int) - 52).toNat = n.log2 - 52 := by omega
        refine ⟨by omega, ?_⟩
        rw [hshift, roundedNat]
        split
        · next hle =>
          have heq : n.log2 = 52 := by omega
          rw [significand, if_pos hle, heq, Nat.sub_self, pow_zero, mul_one, mul_one]
        · rfl
  · -- a significand that is rounded up to 54 bits is that of the next power of two
    have hlarge : ¬n.log2 ≤ 52 := fun hle => hcarry (significand_lt hle)
    have hcarried : significand n = 2 ^ 53 := by omega
    have hshift : ((n.log2 : Int) - 51).toNat = n.log2 - 52 + 1 := by omega
    refine ⟨2 ^ 52, n.log2 - 51, ?_, .inl ⟨by omega, ?_⟩⟩
    · unfold minExponent
      congr 1 <;> omega
    · rw [hshift, roundedNat, if_neg hlarge, hcarried, pow_succ]
      omega

/-- What is a whole number already is not changed by making it whole. -/
theorem Rounding.magnitude_mul (rounding : Rounding) (negative : Bool) (k shift : Nat) :
    rounding.magnitude negative (k * 2 ^ shift) shift = k := by
  have hquotient : k * 2 ^ shift / twoPow shift = k :=
    Nat.mul_div_cancel k (Nat.two_pow_pos shift)
  have hrest : k * 2 ^ shift % twoPow shift = 0 := Nat.mul_mod_left k (2 ^ shift)
  cases rounding with
  | nearestEven => exact shiftRightEven_mul k shift
  | down | up | towardZero => simp only [Rounding.magnitude, hquotient, hrest, if_true, ite_self]

/-- The float nearest to a natural number is whole. -/
theorem round_nearest (rounding : Rounding) (negative : Bool) {n : Nat} (h : n.log2 < 1000) :
    round rounding (nearest negative n 0) = nearest negative n 0 := by
  obtain ⟨mantissa, exponent, hparts, ⟨hwhole, -⟩ | ⟨hneg, rfl, -⟩⟩ :=
    exists_parts_nearest negative h
  · simp only [round, hparts, if_pos hwhole]
  · simp only [round, hparts, if_neg (Int.not_le.mpr hneg), Rounding.magnitude_mul]

/-- The integer that the float nearest to a natural number stands for. -/
theorem toInt?_nearest (negative : Bool) {n : Nat} (h : n.log2 < 1000) :
    toInt? (nearest negative n 0) = some (Numeral.signed negative (roundedNat n)) := by
  obtain ⟨mantissa, exponent, hparts, ⟨hwhole, hvalue⟩ | ⟨hneg, rfl, hvalue⟩⟩ :=
    exists_parts_nearest negative h
  · simp only [toInt?, hparts, if_pos hwhole, twoPow, Nat.pow_eq, hvalue]
    rfl
  · simp only [toInt?, hparts, if_neg (Int.not_le.mpr hneg), twoPow, Nat.pow_eq,
      Nat.mul_div_cancel n (Nat.two_pow_pos _), hvalue]
    rfl

/-! ## Rounding to the nearest float -/

/-- The integers that are floats: 53 bits, and then zeros. -/
def IsFloat (n : Int) : Prop :=
  ∃ (k : Int) (e : Nat), n = k * 2 ^ e ∧ k.natAbs < 2 ^ 53

/-- The integer `m` is a float that no float is nearer to `n` than. If another one is as near, then `m`
is the even one: twice as far as the two are apart divides it. -/
structure IsNearestFloat (n m : Int) : Prop where
  isFloat : IsFloat m
  nearest : ∀ q, IsFloat q → (n - m).natAbs ≤ (n - q).natAbs
  even : ∀ q, IsFloat q → q ≠ m → (n - m).natAbs = (n - q).natAbs → 2 * (q - m) ∣ m

theorem isFloat_of_lt {n : Int} (h : n.natAbs < 2 ^ 53) : IsFloat n :=
  ⟨n, 0, by simp, h⟩

theorem IsFloat.neg {n : Int} (h : IsFloat n) : IsFloat (-n) := by
  obtain ⟨k, e, rfl, hk⟩ := h
  exact ⟨-k, e, by simp, by simpa using hk⟩

/-- A large float ends in zeros. -/
theorem IsFloat.dvd {q : Int} (h : IsFloat q) {shift : Nat} (hlarge : 2 ^ (52 + shift) ≤ q.natAbs) :
    (2 : Int) ^ shift ∣ q := by
  obtain ⟨k, e, rfl, hk⟩ := h
  have hshift : shift ≤ e := by
    have hlt : 2 ^ (52 + shift) < 2 ^ (53 + e) := by
      calc 2 ^ (52 + shift) ≤ (k * 2 ^ e).natAbs := hlarge
        _ = k.natAbs * 2 ^ e := by rw [Int.natAbs_mul, Int.natAbs_pow]; rfl
        _ < 2 ^ 53 * 2 ^ e := Nat.mul_lt_mul_of_pos_right hk (Nat.two_pow_pos e)
        _ = 2 ^ (53 + e) := (pow_add 2 53 e).symm
    have := (Nat.pow_lt_pow_iff_right Nat.one_lt_two).mp hlt
    omega
  exact (pow_dvd_pow 2 hshift).mul_left k

/-- Numbers that differ only in sign are rounded alike. -/
theorem IsNearestFloat.neg {n m : Int} (h : IsNearestFloat n m) : IsNearestFloat (-n) (-m) where
  isFloat := h.isFloat.neg
  nearest q hq := by
    have := h.nearest (-q) hq.neg
    omega
  even q hq hne htie := by
    have heven := h.even (-q) hq.neg (by omega) (by omega)
    rw [Int.dvd_neg]
    rw [show 2 * (-q - m) = -(2 * (q - -m)) by ring, Int.neg_dvd] at heven
    exact heven

/-- Two multiples of a unit are the same, or at least a unit apart. -/
theorem multiples_apart {u : Int} (hu : 0 ≤ u) (t v : Int) :
    v = t ∨ t * u + u ≤ v * u ∨ v * u + u ≤ t * u := by
  rcases lt_trichotomy v t with hlt | heq | hgt
  · have := mul_le_mul_of_nonneg_right (show v + 1 ≤ t by omega) hu
    rw [Int.add_mul] at this
    omega
  · exact .inl heq
  · have := mul_le_mul_of_nonneg_right (show t + 1 ≤ v by omega) hu
    rw [Int.add_mul] at this
    omega

/-- A float is a multiple of a unit, or has less bits than a number with 53 bits in front of that
unit. -/
theorem IsFloat.multiple_or_lt {q : Int} (h : IsFloat q) (shift : Nat) :
    (∃ v : Int, q = v * 2 ^ shift) ∨ (q.natAbs : Int) < 2 ^ 52 * 2 ^ shift := by
  by_cases hlarge : 2 ^ (52 + shift) ≤ q.natAbs
  · obtain ⟨v, hv⟩ := h.dvd hlarge
    exact .inl ⟨v, by rw [hv, mul_comm]⟩
  · right
    rw [← pow_add]
    exact_mod_cast Nat.not_le.mp hlarge

/-- A multiple of the unit of a number's 53rd bit that is off by half a unit at most, and by half a unit
only if it is an even multiple, is the nearest float. -/
theorem isNearestFloat_of_half {n t shift : Nat} (hlength : 2 ^ 52 * 2 ^ shift ≤ n) (ht : t ≤ 2 ^ 53)
    (hhigh : 2 * n ≤ 2 * (t * 2 ^ shift) + 2 ^ shift)
    (hlow : 2 * (t * 2 ^ shift) ≤ 2 * n + 2 ^ shift)
    (heven : 2 * n = 2 * (t * 2 ^ shift) + 2 ^ shift ∨ 2 * (t * 2 ^ shift) = 2 * n + 2 ^ shift →
      t % 2 = 0) : IsNearestFloat n (t * 2 ^ shift : Nat) := by
  have hunit : (0 : Int) < 2 ^ shift := by positivity
  have hfloat : IsFloat (t * 2 ^ shift : Nat) := by
    rcases ht.lt_or_eq with hlt | rfl
    · exact ⟨t, shift, by push_cast; rfl, by omega⟩
    · exact ⟨2 ^ 52, shift + 1, by push_cast; ring, by decide⟩
  have hplace := fun {q : Int} (hq : IsFloat q) => hq.multiple_or_lt shift
  zify at hlength hhigh hlow heven
  push_cast at hfloat ⊢
  generalize (2 : Int) ^ shift = u at *
  have hstart : t * u = 2 ^ 52 * u ∨ 2 ^ 52 * u + u ≤ t * u := by
    obtain heq | habove | hbelow := multiples_apart hunit.le t (2 ^ 52)
    · exact .inl (by rw [heq])
    · omega
    · exact .inr hbelow
  refine ⟨hfloat, fun q hq => ?_, fun q hq hne htie => ?_⟩
  · obtain ⟨v, rfl⟩ | hsmall := hplace hq
    · obtain rfl | habove | hbelow := multiples_apart hunit.le t v <;> omega
    · omega
  · obtain ⟨v, rfl⟩ | hsmall := hplace hq
    · -- the two multiples are a unit apart, with `n` halfway between them
      have happart : v * u - t * u = u ∨ v * u - t * u = -u := by
        obtain rfl | habove | hbelow := multiples_apart hunit.le t v <;> omega
      have htwo : (2 : Int) ∣ t := by omega
      obtain hunits | hunits := happart <;> rw [hunits]
      · exact mul_dvd_mul_right htwo u
      · rw [mul_neg, Int.neg_dvd]
        exact mul_dvd_mul_right htwo u
    · omega

/-- The float nearest to a natural number stands for the nearest integer that is a float, and the even
one of two. -/
theorem isNearestFloat_roundedNat (n : Nat) : IsNearestFloat n (roundedNat n) := by
  by_cases hsmall : n.log2 ≤ 52
  · have hlt : n < 2 ^ 53 :=
      Nat.lt_log2_self.trans_le (Nat.pow_le_pow_right Nat.two_pos (by omega))
    rw [roundedNat, if_pos hsmall]
    refine ⟨isFloat_of_lt (by omega), fun q _ => by omega, fun q _ hne htie => ?_⟩
    omega
  · have hn : n ≠ 0 := by
      rintro rfl
      exact hsmall (by decide)
    have hlength := Nat.log2_self_le hn
    obtain ⟨shift, hshift⟩ : ∃ shift, n.log2 = 52 + shift := ⟨n.log2 - 52, by omega⟩
    have hsignificand : significand n = shiftRightEven n shift := by
      rw [significand, if_neg hsmall, hshift, Nat.add_sub_cancel_left]
    obtain ⟨hhigh, hlow, heven⟩ := shiftRightEven_spec n shift
    rw [hshift, pow_add] at hlength
    rw [← hsignificand] at hhigh hlow heven
    rw [roundedNat, if_neg hsmall, hshift, Nat.add_sub_cancel_left]
    exact isNearestFloat_of_half hlength (significand_bounds hn).2 hhigh hlow heven

/-- The float nearest to an integer is whole, and stands for the nearest integer that is a float. -/
theorem exists_toInt?_ofInt {n : Int} (h : Fits n) :
    ∃ m, IsNearestFloat n m ∧ toInt? (ofInt n) = some m ∧
      ∀ rounding, round rounding (ofInt n) = ofInt n := by
  have hlength : n.natAbs.log2 < 1000 := by
    rw [fits_iff] at h
    by_cases hn : n.natAbs = 0
    · rw [hn]
      decide
    · have hlow := Nat.log2_self_le hn
      exact (Nat.pow_lt_pow_iff_right Nat.one_lt_two).mp (by omega)
  refine ⟨Numeral.signed (decide (n < 0)) (roundedNat n.natAbs), ?_, toInt?_nearest _ hlength,
    fun rounding => round_nearest rounding _ hlength⟩
  have hrounded := isNearestFloat_roundedNat n.natAbs
  by_cases hnegative : n < 0
  · have hn : -(n.natAbs : Int) = n := by omega
    have hopposite := hrounded.neg
    rw [hn] at hopposite
    rwa [decide_eq_true hnegative]
  · have hn : (n.natAbs : Int) = n := by omega
    rw [hn] at hrounded
    rwa [decide_eq_false hnegative]

/-- Rounding keeps a number just if it is a float. -/
theorem IsNearestFloat.eq_iff {n m : Int} (h : IsNearestFloat n m) : m = n ↔ IsFloat n := by
  constructor
  · rintro rfl
    exact h.isFloat
  · intro hn
    have := h.nearest n hn
    omega

/-- Rounding leaves the range of 64 bits from halfway between its last float and the next one, `2 ^ 63`:
the last float is odd. -/
theorem IsNearestFloat.fits_iff_lt {n m : Int} (h : IsNearestFloat n m) (hn : Fits n) :
    Fits m ↔ n < 2 ^ 63 - 512 := by
  have hleast := h.nearest (-2 ^ 63) ⟨-1, 63, rfl, by decide⟩
  have hlast := h.nearest (2 ^ 63 - 1024) ⟨2 ^ 53 - 1, 10, rfl, by decide⟩
  have hnext : IsFloat (2 ^ 63) := ⟨1, 63, rfl, by decide⟩
  have hnearer := h.nearest _ hnext
  rw [fits_iff] at hn ⊢
  constructor
  · rintro ⟨-, hm⟩
    by_contra hhalf
    have hmultiple : (2 : Int) ^ 10 ∣ m := h.isFloat.dvd (by omega)
    have heven := h.even _ hnext (by omega) (by omega)
    have hodd : m = 2 ^ 63 - 1024 := by omega
    rw [hodd] at heven
    exact absurd heven (by decide)
  · intro hhalf
    omega

end Binary64

/-! ## Host functions -/

open Binary64 (IsFloat IsNearestFloat)

variable {E : Type}

/-- What a function comes to that takes an integer for the float nearest to it. -/
structure PassesThroughFloats (n : Int64) (outcome : Except Error (Value E)) : Prop where
  rounded : n.toInt < 2 ^ 63 - 512 →
    ∃ m : Int64, IsNearestFloat n.toInt m.toInt ∧ outcome = .ok (.int m)
  refused : 2 ^ 63 - 512 ≤ n.toInt →
    outcome = .error (.domain (.notAnInteger (Number.floatOfInt n)))
  kept_iff : outcome = .ok (.int n) ↔ IsFloat n.toInt

/-- A function that makes real numbers whole makes the float whole that is nearest to an integer. -/
theorem HostFunction.wholeFunction_int64 (rounding : Binary64.Rounding) (n : Int64) :
    (wholeFunction rounding [.int64 n] : Except Error (Foreign E)) =
      (toInteger (Binary64.round rounding (Number.floatOfInt n))).map .int64 := by
  change (toInteger (Binary64.round rounding (Number.floatOfInt n)) >>=
    fun k => pure (Foreign.int64 k) : Except Error (Foreign E)) = _
  cases toInteger (Binary64.round rounding (Number.floatOfInt n)) with
  | error failure => rfl
  | ok k => rfl

/-- A function that makes real numbers whole takes an integer for a float. -/
theorem passesThroughFloats_wholeFunction (rounding : Binary64.Rounding) (n : Int64) (id : Nat) :
    PassesThroughFloats n
      ((HostFunction.wholeFunction rounding [.int64 n]).map (Foreign.ensure id) :
        Except Error (Value E)) := by
  obtain ⟨m, hnearest, hvalue, hround⟩ := Binary64.exists_toInt?_ofInt (fits_toInt n)
  have hrange := hnearest.fits_iff_lt (fits_toInt n)
  have hfloat := hnearest.eq_iff
  have hrounded : Binary64.round rounding (Number.floatOfInt n) = Number.floatOfInt n := hround rounding
  have hinteger : Binary64.toInt? (Number.floatOfInt n) = some m := hvalue
  rw [HostFunction.wholeFunction_int64, hrounded]
  unfold HostFunction.toInteger
  rw [hinteger, Option.bind_some]
  cases hnarrow : narrow? m with
  | none =>
    have hout := narrow?_eq_none_iff.mp hnarrow
    refine ⟨fun hlow => absurd (hrange.mpr hlow) hout, fun _ => rfl, ?_, fun hn => ?_⟩
    · rintro ⟨⟩
    · rw [hfloat.mpr hn] at hout
      exact absurd (fits_toInt n) hout
  | some k =>
    have hk := toInt_of_narrow? hnarrow
    have hin : Fits m := hk ▸ fits_toInt k
    refine ⟨fun _ => ⟨k, hk ▸ hnearest, rfl⟩, fun hhigh => ?_, ?_, fun hn => ?_⟩
    · exact absurd (hrange.mp hin) (Int.not_lt.mpr hhigh)
    · rintro ⟨⟩
      exact hfloat.mp hk.symm
    · have hkn : k = n := Int64.toInt_inj.mp (hk.trans (hfloat.mpr hn))
      rw [hkn]
      rfl

variable [Embedding E]

/-- A call of a standard host function on an integer: of any function that stands for it, from any
scope. -/
def HostFunction.callOn (f : HostFunction) (id : Nat) (label : Option String) (s : ScopeId)
    (n : Int64) : EvalM E (Value E) :=
  Function.call ⟨id, label, .host f⟩ s [.value (.int n)]

/-- The integer is passed as it is, and the payload that comes back is made a value. -/
theorem HostFunction.outcome_callOn (f : HostFunction) (id : Nat) (label : Option String) (s : ScopeId)
    (n : Int64) (w : World E) :
    (f.callOn id label s n w).1 = (f.run [.int64 n]).map (Foreign.ensure w.nextId) := by
  change ((do
    let payload ← EvalM.ofExcept (f.run [.int64 n])
    return payload.ensure (← EvalM.newId) : EvalM E (Value E)) w).1 = _
  cases f.run [.int64 n] with
  | error failure => rfl
  | ok payload => rfl

/-- Of the functions that give integers, two keep every integer. The other two take an integer for the
float nearest to it: they keep an integer just if it is a float, round it if the nearest float has 64
bits, and else fail. -/
theorem whole_functions_on_integers (id : Nat) (label : Option String) (s : ScopeId) (n : Int64)
    (w : World E) :
    (∀ f ∈ [HostFunction.round, .int], (f.callOn id label s n w).1 = .ok (.int n)) ∧
    ∀ f ∈ [HostFunction.floor, .ceil], PassesThroughFloats n (f.callOn id label s n w).1 := by
  simp only [List.mem_cons, List.not_mem_nil, or_false, forall_eq_or_imp, forall_eq,
    HostFunction.outcome_callOn]
  exact ⟨⟨rfl, rfl⟩, passesThroughFloats_wholeFunction .down n w.nextId,
    passesThroughFloats_wholeFunction .up n w.nextId⟩

/-- The integer behind `2 ^ 53` is rounded, and the greatest integer is refused. -/
theorem whole_functions_on_integers_rounded :
    (HostFunction.floor.callOn 0 none 0 9007199254740993 (World.empty : World Empty)).1 =
      .ok (.int 9007199254740992) ∧
    (HostFunction.ceil.callOn 0 none 0 9007199254740993 (World.empty : World Empty)).1 =
      .ok (.int 9007199254740992) ∧
    (HostFunction.floor.callOn 0 none 0 Int64.maxValue (World.empty : World Empty)).1 =
      .error (.domain (.notAnInteger 9223372036854775808)) ∧
    (HostFunction.ceil.callOn 0 none 0 Int64.maxValue (World.empty : World Empty)).1 =
      .error (.domain (.notAnInteger 9223372036854775808)) := by
  simp only [HostFunction.outcome_callOn]
  exact ⟨rfl, rfl, rfl, rfl⟩

end FlatLisp
