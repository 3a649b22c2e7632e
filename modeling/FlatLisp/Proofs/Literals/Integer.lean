import FlatLisp.Proofs.Arithmetic.Basic
import FlatLisp.Value.Literal
import Mathlib.Data.List.TakeWhile
import Mathlib.Tactic.Ring

/-!
# Integers in text

The words that spell an integer are the decimal numerals with one sign in front of them or none
(`Numeral.Spells`), and every 64-bit integer is shown as one of them. Such a word is a literal for the
integer if that has 64 bits, and else for the float that the decimal is read as. No other word is a
literal for an integer.
-/

namespace FlatLisp

namespace Numeral

variable {cs sign digits : List Char} {negative : Bool} {n : Int}

/-! ## Signs -/

/-- The spellings of a sign. A plus may be left out; `true` stands for a minus. -/
inductive SpellsSign : List Char → Bool → Prop
  | omitted : SpellsSign [] false
  | plus : SpellsSign ['+'] false
  | minus : SpellsSign ['-'] true

/-- Whether no sign stands in front of `cs`. -/
def IsUnsigned (cs : List Char) : Prop :=
  ∀ c ∈ cs.head?, c ≠ '+' ∧ c ≠ '-'

/-- The sign is split off from text that has no further one. -/
theorem splitSign_append (hsign : SpellsSign sign negative) (hcs : IsUnsigned cs) :
    splitSign (sign ++ cs) = (negative, cs) := by
  cases hsign with
  | omitted =>
    rw [List.nil_append]
    unfold splitSign
    split
    · exact absurd rfl (hcs '-' rfl).2
    · exact absurd rfl (hcs '+' rfl).1
    · rfl
  | plus | minus => rfl

/-- What is split off is a sign. -/
theorem exists_sign (cs : List Char) :
    ∃ sign, SpellsSign sign (splitSign cs).1 ∧ cs = sign ++ (splitSign cs).2 := by
  unfold splitSign
  split
  · exact ⟨_, .minus, rfl⟩
  · exact ⟨_, .plus, rfl⟩
  · exact ⟨_, .omitted, rfl⟩

/-! ## Decimal numerals -/

/-- Whether `cs` consists of ASCII digits, one at least. -/
def IsDigits (cs : List Char) : Prop :=
  cs ≠ [] ∧ ∀ c ∈ cs, '0' ≤ c ∧ c ≤ '9'

/-- The number that digits stand for, each for ten times as much as it would in the next place. -/
def decimal : List Char → Nat
  | [] => 0
  | c :: cs => (c.toNat - '0'.toNat) * 10 ^ cs.length + decimal cs

/-- The spellings of an integer: a sign, if any, and then digits. -/
def Spells (cs : List Char) (n : Int) : Prop :=
  ∃ sign negative digits, SpellsSign sign negative ∧ IsDigits digits ∧ cs = sign ++ digits ∧
    n = signed negative (decimal digits)

/-- The digits are those from zero to nine. -/
theorem isDigit_iff {c : Char} : c.isDigit = true ↔ '0' ≤ c ∧ c ≤ '9' :=
  Char.isDigit_iff_toNat

/-- A numeral consists of digits. -/
theorem isNumeral_iff : isNumeral cs = true ↔ IsDigits cs := by
  simp only [isNumeral, IsDigits, Bool.and_eq_true, Bool.not_eq_true', List.isEmpty_eq_false_iff,
    List.all_eq_true, isDigit_iff]

/-- Reading a numeral from the left gives each digit its place. -/
theorem value_eq_decimal (cs : List Char) : value cs = decimal cs := by
  unfold value
  induction cs with
  | nil => rfl
  | cons c cs ih =>
    rw [Nat.ofDigitChars_cons, Nat.ofDigitChars_eq_ofDigitChars_zero, ih, decimal]
    ring

/-- No digit is a sign. -/
theorem IsDigits.isUnsigned (h : IsDigits digits) : IsUnsigned digits := by
  intro c hc
  have hdigit := h.2 c (List.mem_of_mem_head? hc)
  exact ⟨fun heq => absurd (heq ▸ hdigit) (by decide), fun heq => absurd (heq ▸ hdigit) (by decide)⟩

/-- An integer is read from its spellings and from nothing else. -/
theorem int?_eq_some_iff : int? cs = some n ↔ Spells cs n := by
  constructor
  · intro h
    obtain ⟨sign, hsign, hcs⟩ := exists_sign cs
    simp only [int?, Option.ite_none_right_eq_some, isNumeral_iff, Option.some_inj,
      value_eq_decimal] at h
    exact ⟨sign, _, _, hsign, h.1, hcs, h.2.symm⟩
  · rintro ⟨sign, negative, digits, hsign, hdigits, rfl, rfl⟩
    simp only [int?, splitSign_append hsign hdigits.isUnsigned, isNumeral_iff.mpr hdigits, if_true,
      value_eq_decimal]

/-- A 64-bit integer is read from its spellings and from nothing else. -/
theorem int64?_eq_some_iff {k : Int64} : int64? cs = some k ↔ Spells cs k.toInt := by
  rw [int64?, Option.bind_eq_some_iff]
  constructor
  · rintro ⟨m, hm, hk⟩
    rw [narrow?_eq_some_iff.mp hk]
    exact int?_eq_some_iff.mp hm
  · intro h
    exact ⟨k.toInt, int?_eq_some_iff.mpr h, narrow?_toInt k⟩

/-- An integer out of range is not read. -/
theorem int64?_eq_none_of_spells (h : Spells cs n) (hn : ¬Fits n) : int64? cs = none := by
  rw [int64?, int?_eq_some_iff.mpr h, Option.bind_some, narrow?_eq_none_iff]
  exact hn

/-- A natural number is written in digits, which stand for it. -/
theorem isDigits_toDigits (k : Nat) :
    IsDigits (Nat.toDigits 10 k) ∧ decimal (Nat.toDigits 10 k) = k := by
  refine ⟨⟨Nat.toDigits_ne_nil, fun c hc => ?_⟩, ?_⟩
  · exact isDigit_iff.mp (Nat.isDigit_of_mem_toDigits (by decide) (by decide) hc)
  · rw [← value_eq_decimal]
    exact Nat.ofDigitChars_toDigits (by decide) (by decide)

/-- A 64-bit integer is shown as one of its spellings. -/
theorem spells_render (k : Int64) : Spells (render k).toList k.toInt := by
  unfold render
  rw [Int.repr_eq_if]
  split
  · next hk =>
    obtain ⟨hdigits, hvalue⟩ := isDigits_toDigits k.toInt.toNat
    refine ⟨[], false, _, .omitted, hdigits, Nat.toList_repr, ?_⟩
    rw [hvalue, signed, if_neg Bool.false_ne_true, Int.toNat_of_nonneg hk]
  · next hk =>
    obtain ⟨hdigits, hvalue⟩ := isDigits_toDigits (-k.toInt).toNat
    refine ⟨['-'], true, _, .minus, hdigits, ?_, ?_⟩
    · rw [String.toList_append, Nat.toList_repr]
      rfl
    · rw [hvalue, signed, if_pos rfl, Int.toNat_of_nonneg (by omega), Int.neg_neg]

end Numeral

/-! ## Integers as floats -/

namespace Binary64

open Numeral

/-- Digits alone have nothing on the other side of a point. -/
theorem splitPoint_digits {digits : List Char} (h : IsDigits digits) :
    splitPoint digits = (digits, [], []) := by
  have hall : ∀ c ∈ digits, c.isDigit = true := fun c hc => isDigit_iff.mpr (h.2 c hc)
  unfold splitPoint
  rw [List.dropWhile_eq_nil_iff.mpr hall, List.takeWhile_eq_self_iff.mpr hall]

/-- A spelling of an integer is read as the float of its decimal. -/
theorem read?_of_spells {cs : List Char} {n : Int} (h : Spells cs n) :
    ∃ negative, n = signed negative n.natAbs ∧
      read? cs = some (if negative then -ofDecimal n.natAbs 0 else ofDecimal n.natAbs 0) := by
  obtain ⟨sign, negative, digits, hsign, hdigits, rfl, rfl⟩ := h
  have hmagnitude : (signed negative (decimal digits)).natAbs = decimal digits := by
    unfold signed
    split <;> omega
  have hdecimal : readDecimal? digits = some ⟨decimal digits, 0⟩ := by
    simp [readDecimal?, splitPoint_digits hdigits, readExponent?, hdigits.1, value_eq_decimal]
  refine ⟨negative, by rw [hmagnitude], ?_⟩
  simp only [read?, splitSign_append hsign hdigits.isUnsigned, readMagnitude?, hdecimal,
    Option.map_some, hmagnitude]

end Binary64

/-! ## Literals -/

namespace Value

open Numeral

variable {E : Type} {word : String} {n : Int}

/-- A word that spells an integer is a literal for a number. -/
theorem literal?_of_spells (h : Spells word.toList n) :
    (literal? word : Option (Value E)) = numeric? word.toList := by
  have hword : word.toList.any Char.isDigit = true := by
    obtain ⟨sign, negative, digits, -, ⟨hne, hdigits⟩, hcs, -⟩ := h
    obtain ⟨c, hc⟩ := List.exists_mem_of_ne_nil digits hne
    rw [hcs, List.any_append, Bool.or_eq_true]
    exact .inr (List.any_eq_true.mpr ⟨c, hc, isDigit_iff.mpr (hdigits c hc)⟩)
  have htrue : word ≠ "true" := by
    rintro rfl
    exact absurd hword (by decide)
  have hfalse : word ≠ "false" := by
    rintro rfl
    exact absurd hword (by decide)
  rw [literal?, if_neg htrue, if_neg hfalse, if_pos hword]

/-- Numbers are tried as integers first. -/
theorem numeric?_eq_int_iff {cs : List Char} {k : Int64} :
    (numeric? cs : Option (Value E)) = some (.int k) ↔ Spells cs k.toInt := by
  rw [← int64?_eq_some_iff]
  unfold numeric?
  cases int64? cs with
  | some m => simp
  | none => cases Binary64.read? cs <;> simp

/-- Integer literals are exactly the spellings in range. -/
theorem literal?_eq_int_iff {k : Int64} :
    (literal? word : Option (Value E)) = some (.int k) ↔ Spells word.toList k.toInt := by
  constructor
  · intro h
    unfold literal? at h
    split at h
    · cases h
    · split at h
      · cases h
      · split at h
        · exact numeric?_eq_int_iff.mp h
        · cases h
  · intro h
    rw [literal?_of_spells h]
    exact numeric?_eq_int_iff.mpr h

end Value

/-- A word is a literal for a 64-bit integer just if it consists of a sign, or none, and of one or more
ASCII digits that stand for the integer. A word of this shape that stands for an integer out of range is
a literal for the float that its decimal is read as. And every 64-bit integer is read back from the text
that shows it. -/
theorem integer_literals_exact (E : Type) :
    (∀ (word : String) (k : Int64), (Value.literal? word : Option (Value E)) = some (.int k) ↔
      Numeral.Spells word.toList k.toInt) ∧
    (∀ (word : String) (n : Int), Numeral.Spells word.toList n → ¬Fits n →
      (Value.literal? word : Option (Value E)) = some (.float
        (if n < 0 then -Binary64.ofDecimal n.natAbs 0 else Binary64.ofDecimal n.natAbs 0))) ∧
    ∀ k : Int64, (Value.literal? (Value.int k : Value E).render : Option (Value E)) = some (.int k) := by
  refine ⟨fun word k => Value.literal?_eq_int_iff, fun word n hspells hn => ?_, fun k => ?_⟩
  · obtain ⟨negative, hsigned, hread⟩ := Binary64.read?_of_spells hspells
    have hnegative : negative = decide (n < 0) := by
      rw [fits_iff] at hn
      unfold Numeral.signed at hsigned
      cases negative with
      | false =>
        rw [if_neg Bool.false_ne_true] at hsigned
        exact (decide_eq_false (by omega)).symm
      | true =>
        rw [if_pos rfl] at hsigned
        exact (decide_eq_true (by omega)).symm
    rw [Value.literal?_of_spells hspells, Value.numeric?, Numeral.int64?_eq_none_of_spells hspells hn,
      hread, hnegative]
    simp only [decide_eq_true_eq]
  · exact Value.literal?_eq_int_iff.mpr (Numeral.spells_render k)

/-- Leading zeros do not matter, and an integer below the least one of 64 bits is a float. -/
theorem integer_literals_exact_bounds :
    (Value.literal? "+007" : Option (Value Empty)) = some (.int 7) ∧
    (Value.literal? "-9223372036854775808" : Option (Value Empty)) = some (.int Int64.minValue) ∧
    (Value.literal? "-9223372036854775809" : Option (Value Empty)) =
      some (.float (-Binary64.ofDecimal 9223372036854775809 0)) := by
  obtain ⟨hint, hfloat, hrender⟩ := integer_literals_exact Empty
  refine ⟨(hint "+007" 7).mpr ?_, hrender Int64.minValue, hfloat _ (-9223372036854775809) ?_ ?_⟩
  · exact ⟨['+'], false, ['0', '0', '7'], .plus, Numeral.isNumeral_iff.mp rfl, rfl, by decide⟩
  · exact ⟨['-'], true, "9223372036854775809".toList, .minus, Numeral.isNumeral_iff.mp rfl, rfl,
      by decide⟩
  · decide

end FlatLisp
