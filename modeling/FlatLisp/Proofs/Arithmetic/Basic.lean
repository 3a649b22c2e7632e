import FlatLisp.Proofs.Adaptation
import Mathlib.Algebra.Ring.Int.Defs
import Mathlib.Algebra.Ring.Nat

/-!
# Arithmetic on 64-bit integers

The integers that have 64 bits, and what a call of a builtin operation on numbers comes to: the
operands pass its signature as they are, so the call has the outcome of the operation. This holds of
operations on two integers, of comparisons, and of operations on any number of operands from two up.
-/

namespace FlatLisp

/-- The integers that have 64 bits. -/
def Fits (n : Int) : Prop :=
  Int64.minValue.toInt ≤ n ∧ n ≤ Int64.maxValue.toInt

instance (n : Int) : Decidable (Fits n) :=
  inferInstanceAs (Decidable (_ ∧ _))

/-- The range of 64 bits in figures. -/
theorem fits_iff {n : Int} : Fits n ↔ -2 ^ 63 ≤ n ∧ n < 2 ^ 63 := by
  have hmin : Int64.minValue.toInt = -2 ^ 63 := Int64.toInt_minValue
  have hmax : Int64.maxValue.toInt = 2 ^ 63 - 1 := Int64.toInt_maxValue
  unfold Fits
  omega

/-- A 64-bit integer has 64 bits. -/
theorem fits_toInt (k : Int64) : Fits k.toInt :=
  fits_iff.mpr ⟨Int64.le_toInt k, Int64.toInt_lt k⟩

/-- Narrowing gives the 64-bit integer that is equal to a number. -/
theorem narrow?_eq_some_iff {n : Int} {k : Int64} : narrow? n = some k ↔ k.toInt = n := by
  constructor
  · exact toInt_of_narrow?
  · intro h
    rw [← h, narrow?_toInt]

/-- Narrowing fails for numbers out of range only. -/
theorem narrow?_eq_none_iff {n : Int} : narrow? n = none ↔ ¬Fits n := by
  unfold narrow? Fits
  simp

/-- What has 64 bits is a 64-bit integer. -/
theorem Fits.exists_toInt {n : Int} (h : Fits n) : ∃ k : Int64, k.toInt = n := by
  cases hnarrow : narrow? n with
  | none => exact absurd h (narrow?_eq_none_iff.mp hnarrow)
  | some k => exact ⟨k, toInt_of_narrow? hnarrow⟩

/-- A result that has 64 bits does not wrap. -/
theorem Fits.bmod_eq {n : Int} (h : Fits n) : n.bmod (2 ^ 64) = n := by
  rw [fits_iff] at h
  exact Int.bmod_eq_of_le (by omega) (by omega)

variable {E : Type} [Embedding E]

/-- A call of a builtin operation on two integers: of any function that stands for it, from any scope. -/
def Builtin.callOn (b : Builtin) (id : Nat) (label : Option String) (s : ScopeId) (x y : Int64) :
    EvalM E (Value E) :=
  Function.call ⟨id, label, .builtin b⟩ s [.value (.int x), .value (.int y)]

/-- A call of an operation on two numbers has the outcome of the operation, and changes nothing but
the numbers that are left for new functions and objects. -/
theorem Builtin.callOn_eq {b : Builtin} (operation : Number → Number → Except Error Number)
    (hb : (b.typed : Typed E) = Builtin.binary operation) (id : Nat) (label : Option String)
    (s : ScopeId) (x y : Int64) (w : World E) :
    b.callOn id label s x y w =
      ((operation (.int x) (.int y)).map Value.ofNumber, { w with nextId := w.nextId + 2 }) := by
  unfold Builtin.callOn
  rw [Function.call_eq_of_typed? (f := b.typed) rfl, hb]
  rfl

/-- A typed function runs on what was passed for its arguments. -/
theorem Function.exists_call_toOperands {body : Body E} {f : Typed E} (h : body.typed? = some f)
    (id : Nat) (label : Option String) (s : ScopeId) (args : Args E f.params f.rest)
    (hcount : f.arity.accepts (Args.toOperands f.params f.rest args).length = true) (w : World E) :
    ∃ k, Function.call ⟨id, label, body⟩ s (Args.toOperands f.params f.rest args) w =
      f.run (.of w s) args { w with nextId := w.nextId + k } := by
  obtain ⟨k, hread⟩ := Args.readFrom_adapted
    (.arityMismatch f.arity (Args.adapted f.params f.rest args).length) f.params f.rest 1 args w
  refine ⟨k, ?_⟩
  rw [Function.call_eq_of_typed? h, Typed.adapt_signature, if_pos hcount, Args.adaptFrom_toOperands]
  exact Correspondence.run_bind_ok _ hread

/-- A call of a builtin operation on numbers: of any function that stands for it, from any scope. -/
def Builtin.callOnAll (b : Builtin) (id : Nat) (label : Option String) (s : ScopeId)
    (numbers : List Number) : EvalM E (Value E) :=
  Function.call ⟨id, label, .builtin b⟩ s (numbers.map fun n => .value (.ofNumber n))

/-- A call of an operation on two or more numbers has the outcome of the operation. -/
theorem Builtin.outcome_folded {b : Builtin} (operation : Number → List Number → Except Error Number)
    (hb : (b.typed : Typed E) = Builtin.folded operation) (id : Nat) (label : Option String)
    (s : ScopeId) (x y : Number) (rest : List Number) (w : World E) :
    (b.callOnAll id label s (x :: y :: rest) w).1 =
      (operation x (y :: rest)).map Value.ofNumber := by
  have htyped : (Body.builtin b : Body E).typed? = some (Builtin.folded operation) :=
    congrArg some hb
  have hcount : (Builtin.folded operation : Typed E).arity.accepts
      (Args.toOperands [.number, .number] (some .number) (x, y, rest) : List (Operand E)).length := by
    simp [Typed.arity, Arity.accepts, Builtin.folded, Typed.pure, Args.toOperands]
  obtain ⟨k, hcall⟩ := Function.exists_call_toOperands htyped id label s (x, y, rest) hcount w
  exact congrArg Prod.fst hcall

/-- A call of a comparison of two numbers has the outcome of the comparison. -/
theorem Builtin.outcome_comparison {b : Builtin} {name : String} {wanted : List Ordering}
    (hb : (b.typed : Typed E) = Builtin.comparison name wanted) (id : Nat) (label : Option String)
    (s : ScopeId) (x y : Number) (w : World E) :
    (b.callOnAll id label s [x, y] w).1 = (Number.ordered name wanted x y).map Value.bool := by
  have htyped : (Body.builtin b : Body E).typed? = some (Builtin.comparison name wanted) :=
    congrArg some hb
  obtain ⟨k, hcall⟩ := Function.exists_call_toOperands htyped id label s (x, y, ()) rfl w
  exact congrArg Prod.fst hcall

end FlatLisp
