import FlatLisp.Proofs.Arithmetic.Basic

/-!
# Sums and products of many numbers

Numbers are combined from left to right, and each step is made on the higher floor of the two numbers
that meet there. So the result leaves the integers at the first operand that is no integer and never
comes back: only the integers in front of it (`leadingInts`) can overflow, and these are combined
exactly up to the first partial result that has no 64 bits.
-/

namespace FlatLisp

namespace Number

/-- The floor of the numeric tower that a number stands on: integers, floats, complex numbers. -/
def level : Number → Nat
  | int _ => 0
  | float _ => 1
  | complex _ => 2

/-- The integers at the start of a list, up to the first number of another kind. -/
def leadingInts : List Number → List Int
  | int n :: rest => n.toInt :: leadingInts rest
  | _ => []

@[simp] theorem leadingInts_nil : leadingInts [] = [] := rfl

/-- A number stands on the highest floor of some numbers. -/
def IsHighest (result : Number) (operands : List Number) : Prop :=
  (∃ n ∈ operands, n.level = result.level) ∧ ∀ n ∈ operands, n.level ≤ result.level

/-- On the lowest floor there are integers only. -/
theorem exists_int_of_level {a : Number} (h : ¬0 < a.level) : ∃ x, a = .int x := by
  cases a with
  | int x => exact ⟨x, rfl⟩
  | float _ | complex _ => exact absurd (Nat.succ_pos _) h

/-- A number that stands on the common floor of two others may take their place. -/
theorem IsHighest.of_meet {a b meet result : Number} {rest : List Number}
    (hmeet : meet.level = max a.level b.level) (h : IsHighest result (meet :: rest)) :
    IsHighest result (a :: b :: rest) := by
  obtain ⟨⟨n, hn, hlevel⟩, hall⟩ := h
  have htop := hall meet List.mem_cons_self
  refine ⟨?_, fun n hn => ?_⟩
  · rcases List.mem_cons.mp hn with rfl | hn
    · rcases Nat.le_total a.level b.level with hle | hle
      · exact ⟨b, by simp, by omega⟩
      · exact ⟨a, by simp, by omega⟩
    · exact ⟨n, by simp [hn], hlevel⟩
  · rcases List.mem_cons.mp hn with rfl | hn
    · omega
    · rcases List.mem_cons.mp hn with rfl | hn
      · omega
      · exact hall n (List.mem_cons_of_mem meet hn)

/-- An operation that computes `f` on integers as far as the result has 64 bits, and that succeeds on
the common floor of any other two numbers. -/
structure IsExactOn (operation : Number → Number → Except Error Number) (name : String)
    (f : Int → Int → Int) : Prop where
  ints : ∀ x y : Int64, operation (.int x) (.int y) = exact name (f x.toInt y.toInt)
  others : ∀ a b : Number, 0 < max a.level b.level →
    ∃ c, operation a b = .ok c ∧ c.level = max a.level b.level

/-- Addition is exact on integers. -/
theorem isExactOn_add : IsExactOn add "addition" (· + ·) where
  ints _ _ := rfl
  others a b h := by
    cases a <;> cases b <;> first
      | exact ⟨_, rfl, rfl⟩
      | cases h

/-- Multiplication is exact on integers. -/
theorem isExactOn_mul : IsExactOn mul "multiplication" (· * ·) where
  ints _ _ := rfl
  others a b h := by
    cases a <;> cases b <;> first
      | exact ⟨_, rfl, rfl⟩
      | cases h

/-! ## Running over the operands -/

section Accumulate

variable {operation : Number → Number → Except Error Number} {name : String} {f : Int → Int → Int}

/-- A step between two integers goes on from the exact result, or is an overflow. -/
theorem accumulate_int (h : IsExactOn operation name f) (x y : Int64) (rest : List Number) :
    accumulate operation (.int x) (.int y :: rest) =
      match narrow? (f x.toInt y.toInt) with
      | some z => accumulate operation (.int z) rest
      | none => .error (.domain (.overflow name)) := by
  rw [accumulate, h.ints, exact]
  cases narrow? (f x.toInt y.toInt) <;> rfl

/-- A step between any other two numbers goes on from a number on their common floor. -/
theorem accumulate_meet (h : IsExactOn operation name f) {a b : Number}
    (hlevel : 0 < max a.level b.level) (rest : List Number) :
    ∃ meet, meet.level = max a.level b.level ∧
      accumulate operation a (b :: rest) = accumulate operation meet rest := by
  obtain ⟨meet, hmeet, hmeetLevel⟩ := h.others a b hlevel
  refine ⟨meet, hmeetLevel, ?_⟩
  rw [accumulate, hmeet]
  rfl

/-- Above the integers the operands are combined without a failure. -/
theorem accumulate_of_level (h : IsExactOn operation name f) {a : Number} (ha : 0 < a.level)
    (rest : List Number) :
    ∃ c, accumulate operation a rest = .ok c ∧ IsHighest c (a :: rest) := by
  induction rest generalizing a with
  | nil => exact ⟨a, rfl, ⟨a, by simp, rfl⟩, by simp⟩
  | cons b rest ih =>
    obtain ⟨meet, hlevel, hstep⟩ := accumulate_meet h (a := a) (b := b) (by omega) rest
    obtain ⟨c, hc, hhighest⟩ := ih (a := meet) (by omega)
    exact ⟨c, hstep.trans hc, hhighest.of_meet hlevel⟩

/-- A partial result of the leading integers that has no 64 bits is an overflow. -/
theorem accumulate_of_overflow (h : IsExactOn operation name f) {x : Int64} {rest : List Number}
    {k : Nat} (hover : ¬Fits (((leadingInts rest).take k).foldl f x.toInt)) :
    accumulate operation (.int x) rest = .error (.domain (.overflow name)) := by
  induction rest generalizing x k with
  | nil =>
    rw [leadingInts_nil, List.take_nil] at hover
    exact absurd (fits_toInt x) hover
  | cons b rest ih =>
    cases k with
    | zero => exact absurd (fits_toInt x) hover
    | succ k =>
      cases b with
      | int y =>
        rw [accumulate_int h]
        cases hz : narrow? (f x.toInt y.toInt) with
        | none => rfl
        | some z =>
          rw [leadingInts, List.take_succ_cons, List.foldl_cons, ← toInt_of_narrow? hz] at hover
          exact ih hover
      | float _ | complex _ => exact absurd (fits_toInt x) hover

/-- If every partial result of the leading integers has 64 bits, then the operands are combined without
a failure, and exactly if all are integers. -/
theorem accumulate_of_fits (h : IsExactOn operation name f) {x : Int64} {rest : List Number}
    (hfits : ∀ k, Fits (((leadingInts rest).take k).foldl f x.toInt)) :
    ∃ c, accumulate operation (.int x) rest = .ok c ∧ IsHighest c (.int x :: rest) ∧
      ∀ ints : List Int64, rest = ints.map int →
        ∃ n : Int64, c = .int n ∧ n.toInt = (ints.map Int64.toInt).foldl f x.toInt := by
  induction rest generalizing x with
  | nil =>
    refine ⟨.int x, rfl, ⟨⟨.int x, by simp, rfl⟩, by simp⟩, fun ints hints => ⟨x, rfl, ?_⟩⟩
    rw [List.map_eq_nil_iff.mp hints.symm]
    rfl
  | cons b rest ih =>
    by_cases hb : 0 < b.level
    · obtain ⟨meet, hlevel, hstep⟩ := accumulate_meet h (a := .int x) (b := b) (by omega) rest
      obtain ⟨c, hc, hhighest⟩ := accumulate_of_level h (a := meet) (by omega) rest
      refine ⟨c, hstep.trans hc, hhighest.of_meet hlevel, fun ints hints => ?_⟩
      obtain ⟨y, others, -, rfl, -⟩ := List.map_eq_cons_iff.mp hints.symm
      exact absurd hb (Nat.lt_irrefl 0)
    · obtain ⟨y, rfl⟩ := exists_int_of_level hb
      obtain ⟨z, hz⟩ := (hfits 1).exists_toInt
      change z.toInt = f x.toInt y.toInt at hz
      have hrest : ∀ k, Fits (((leadingInts rest).take k).foldl f z.toInt) := by
        intro k
        rw [hz]
        exact hfits (k + 1)
      obtain ⟨c, hc, hhighest, hexact⟩ := ih hrest
      refine ⟨c, ?_, hhighest.of_meet rfl, fun ints hints => ?_⟩
      · rw [accumulate_int h, narrow?_eq_some_iff.mpr hz]
        exact hc
      · obtain ⟨y', others, rfl, hy, hothers⟩ := List.map_eq_cons_iff.mp hints.symm
        cases hy
        obtain ⟨n, hn, hvalue⟩ := hexact others hothers.symm
        exact ⟨n, hn, by rw [hvalue, hz]; rfl⟩

end Accumulate

end Number

open Number

/-- What an operation on two or more numbers may come to. It fails with the given message exactly if
some exact partial result of two or more of the leading integers has no 64 bits; else it gives a number
on the highest floor of the operands, which is the exact result if all of them are integers. -/
structure IsExactTotal {E : Type} (message : String) (total : List Int → Int)
    (operands : List Number) (outcome : Except Error (Value E)) : Prop where
  overflow_iff : (∃ fault, fault.message = message ∧ outcome = .error (.domain fault)) ↔
    ∃ k, 2 ≤ k ∧ k ≤ (leadingInts operands).length ∧ ¬Fits (total ((leadingInts operands).take k))
  otherwise : (∀ k, 2 ≤ k → k ≤ (leadingInts operands).length →
      Fits (total ((leadingInts operands).take k))) →
    ∃ result : Number, outcome = .ok (.ofNumber result) ∧ result.IsHighest operands ∧
      ∀ ints : List Int64, operands = ints.map int →
        ∃ n : Int64, result = .int n ∧ n.toInt = total (ints.map Int64.toInt)

section Total

variable {operation : Number → Number → Except Error Number} {name : String} {f : Int → Int → Int}
  {unit : Int}

/-- Partial results of at least two operands decide for all: one operand has 64 bits anyway, and there
is nothing behind the last one. -/
theorem fits_partial {x : Int64} {ints : List Int} (hunit : ∀ n, f unit n = n)
    (h : ∀ k, 2 ≤ k → k ≤ (x.toInt :: ints).length → Fits (((x.toInt :: ints).take k).foldl f unit))
    (k : Nat) : Fits ((ints.take k).foldl f x.toInt) := by
  have hmin : ints.take k = ints.take (min k ints.length) := by
    rw [← List.take_take, List.take_length]
  rw [hmin]
  by_cases hzero : min k ints.length = 0
  · rw [hzero]
    exact fits_toInt x
  · have hpartial := h (min k ints.length + 1) (by omega) (by simp)
    rw [List.take_succ_cons, List.foldl_cons, hunit] at hpartial
    exact hpartial

/-- Without an overflow on the way two or more numbers are combined, and exactly if all are integers. -/
theorem exists_accumulate (h : IsExactOn operation name f) (hunit : ∀ n, f unit n = n) {a b : Number}
    {rest : List Number}
    (hfits : ∀ k, 2 ≤ k → k ≤ (leadingInts (a :: b :: rest)).length →
      Fits (((leadingInts (a :: b :: rest)).take k).foldl f unit)) :
    ∃ c, accumulate operation a (b :: rest) = .ok c ∧ c.IsHighest (a :: b :: rest) ∧
      ∀ ints : List Int64, a :: b :: rest = ints.map int →
        ∃ n : Int64, c = .int n ∧ n.toInt = (ints.map Int64.toInt).foldl f unit := by
  by_cases ha : 0 < a.level
  · obtain ⟨c, hc, hhighest⟩ := accumulate_of_level h ha (b :: rest)
    refine ⟨c, hc, hhighest, fun ints hints => ?_⟩
    obtain ⟨y, others, -, rfl, -⟩ := List.map_eq_cons_iff.mp hints.symm
    exact absurd ha (Nat.lt_irrefl 0)
  · obtain ⟨x, rfl⟩ := exists_int_of_level ha
    obtain ⟨c, hc, hhighest, hexact⟩ := accumulate_of_fits h (fits_partial hunit hfits)
    refine ⟨c, hc, hhighest, fun ints hints => ?_⟩
    obtain ⟨x', others, rfl, hx, hothers⟩ := List.map_eq_cons_iff.mp hints.symm
    cases hx
    obtain ⟨n, hn, hvalue⟩ := hexact others hothers.symm
    exact ⟨n, hn, by rw [hvalue, List.map_cons, List.foldl_cons, hunit]⟩

/-- Combining two or more numbers is exact, or an overflow. -/
theorem isExactTotal_accumulate {E : Type} (h : IsExactOn operation name f)
    (hunit : ∀ n, f unit n = n) (a b : Number) (rest : List Number) :
    IsExactTotal (E := E) (DomainFault.overflow name).message (List.foldl f unit) (a :: b :: rest)
      ((accumulate operation a (b :: rest)).map Value.ofNumber) := by
  refine ⟨⟨fun ⟨fault, _, hfault⟩ => ?_, fun ⟨k, htwo, hk, hover⟩ => ?_⟩, fun hfits => ?_⟩
  · by_contra hno
    push Not at hno
    obtain ⟨c, hc, -⟩ := exists_accumulate h hunit hno
    rw [hc] at hfault
    cases hfault
  · refine ⟨.overflow name, rfl, ?_⟩
    cases a with
    | int x =>
      obtain ⟨k, rfl⟩ : ∃ j, k = j + 1 := ⟨k - 1, by omega⟩
      rw [leadingInts, List.take_succ_cons, List.foldl_cons, hunit] at hover
      rw [accumulate_of_overflow h hover]
      rfl
    | float _ | complex _ => exact absurd (htwo.trans hk) (by simp [leadingInts])
  · obtain ⟨c, hc, hhighest, hexact⟩ := exists_accumulate h hunit hfits
    exact ⟨c, by rw [hc]; rfl, hhighest, hexact⟩

end Total

variable {E : Type} [Embedding E]

/-- Sums and products of two or more numbers fail exactly if the integers in front of the first other
number overflow on the way. Else they are numbers of the highest kind among the operands, and the
exact sum and the exact product if all operands are integers. -/
theorem sums_and_products_exact (id : Nat) (label : Option String) (s : ScopeId) (a b : Number)
    (rest : List Number) (w : World E) :
    IsExactTotal "integer overflow in addition" List.sum (a :: b :: rest)
      (Builtin.add.callOnAll id label s (a :: b :: rest) w).1 ∧
    IsExactTotal "integer overflow in multiplication" List.prod (a :: b :: rest)
      (Builtin.mul.callOnAll id label s (a :: b :: rest) w).1 := by
  have hsum : (List.sum : List Int → Int) = List.foldl (· + ·) 0 := by
    funext ints
    exact List.sum_eq_foldl
  have hprod : (List.prod : List Int → Int) = List.foldl (· * ·) 1 := by
    funext ints
    exact List.prod_eq_foldl
  rw [Builtin.outcome_folded (accumulate add) rfl, Builtin.outcome_folded (accumulate mul) rfl, hsum,
    hprod]
  exact ⟨isExactTotal_accumulate isExactOn_add Int.zero_add a b rest,
    isExactTotal_accumulate isExactOn_mul Int.one_mul a b rest⟩

end FlatLisp
