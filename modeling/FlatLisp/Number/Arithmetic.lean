import FlatLisp.Error
import FlatLisp.Number.Basic

/-!
# Arithmetic

Two numbers are lifted to their common floor and combined there. Results of integers are exact: one
that has no 64 bits is an error and never wraps. A zero divisor is an error on every floor. Complex
numbers have no order, so the comparisons, extremes, floor division and modulo refuse them.
-/

namespace FlatLisp.Number

/-- An integer as a number; where there is none, the operation has left 64 bits. -/
def orOverflow (operation : String) : Option Int64 → Except Error Number
  | some k => .ok (.int k)
  | none => .error (.domain (.overflow operation))

/-- The integer `n` as a number, if it has 64 bits. -/
def exact (operation : String) (n : Int) : Except Error Number :=
  orOverflow operation (narrow? n)

/-- The sum of two numbers. -/
def add (a b : Number) : Except Error Number :=
  match promote a b with
  | .int x y => exact "addition" (x.toInt + y.toInt)
  | .float x y => .ok (.float (x + y))
  | .complex x y => .ok (.complex (x.add y))

/-- The product of two numbers. -/
def mul (a b : Number) : Except Error Number :=
  match promote a b with
  | .int x y => exact "multiplication" (x.toInt * y.toInt)
  | .float x y => .ok (.float (x * y))
  | .complex x y => .ok (.complex (x.mul y))

/-- The difference of two numbers. -/
def sub (a b : Number) : Except Error Number :=
  match promote a b with
  | .int x y => exact "subtraction" (x.toInt - y.toInt)
  | .float x y => .ok (.float (x - y))
  | .complex x y => .ok (.complex (x.sub y))

/-- Combine a number with further ones from left to right. -/
def accumulate (operation : Number → Number → Except Error Number) :
    Number → List Number → Except Error Number
  | a, [] => .ok a
  | a, b :: rest => do accumulate operation (← operation a b) rest

/-- Fail if `divisor` is zero. -/
def requireNonzero (divisor : Number) : Except Error Unit :=
  if divisor.isZero then .error (.domain .zeroDivisor) else .ok ()

/-- True division, which leaves the integers. -/
def div (a b : Number) : Except Error Number := do
  requireNonzero b
  match promote a b with
  | .int x y => return .float (floatOfInt x / floatOfInt y)
  | .float x y => return .float (x / y)
  | .complex x y => return .complex (x.div y)

/-- The quotient of two integers, cut off toward zero. There is none by zero, and that of the least
integer by -1 has no 64 bits. -/
def quotient? (x y : Int64) : Option Int64 :=
  if y = 0 ∨ (x = Int64.minValue ∧ y = -1) then none else some (x / y)

/-- The quotient of two integers, rounded down: one less than the quotient that is cut off, if
something is cut off and the signs differ. -/
def floorQuotient? (x y : Int64) : Option Int64 :=
  (quotient? x y).map fun quotient =>
    if x % y != 0 && decide (x < 0) != decide (y < 0) then quotient - 1 else quotient

/-- Division with the quotient rounded down. -/
def floorDiv (a b : Number) : Except Error Number := do
  requireNonzero b
  match promote a b with
  | .int x y => orOverflow "division" (floorQuotient? x y)
  | .float x y => return .float (Binary64.floor (x / y))
  | .complex _ _ => throw (.domain (.complexOperand "//"))

/-- A float remainder, moved by one divisor if its sign is not that of the divisor. -/
def floatModulo (x y : Float) : Float :=
  let remainder := Binary64.remainder x y
  if remainder != 0.0 && decide (remainder < 0.0) != decide (y < 0.0) then remainder + y
  else remainder

/-- The remainder of a division whose quotient is cut off toward zero. Dividing by -1 leaves nothing,
also where the quotient has no 64 bits. -/
def remainder (x y : Int64) : Int64 :=
  if y = -1 then 0 else x % y

/-- An integer remainder, moved by one divisor if its sign is not that of the divisor. -/
def intModulo (x y : Int64) : Int64 :=
  if remainder x y != 0 && decide (remainder x y < 0) != decide (y < 0) then remainder x y + y
  else remainder x y

/-- The remainder of floor division: zero, or of the sign of the divisor. -/
def modulo (a b : Number) : Except Error Number := do
  requireNonzero b
  match promote a b with
  | .int x y => return .int (intModulo x y)
  | .float x y => return .float (floatModulo x y)
  | .complex _ _ => throw (.domain (.complexOperand "%"))

/-- The product of two integers, if it has 64 bits. -/
def product? (x y : Int64) : Option Int64 :=
  narrow? (x.toInt * y.toInt)

/-- `acc * base ^ exponent` by repeated squaring, up to the first product that has no 64 bits. The
base is not squared any more once the exponent is used up. -/
def powerFrom? (acc base : Int64) (exponent : Nat) : Option Int64 :=
  if exponent = 0 then some acc
  else
    (if exponent % 2 = 1 then product? acc base else some acc).bind fun acc =>
      if exponent = 1 then some acc
      else (product? base base).bind fun square => powerFrom? acc square (exponent / 2)
termination_by exponent

/-- The power of an integer to an exponent of more than 32 bits. Only three bases stay in range. -/
def largePower? (base exponent : Int64) : Option Int64 :=
  if base = 0 ∨ base = 1 then some base
  else if base = -1 then some (if exponent % 2 = 0 then 1 else -1)
  else none

/-- The power of an integer to an exponent that is not negative, if it has 64 bits. -/
def intPower? (base exponent : Int64) : Option Int64 :=
  if exponent.toInt < UInt32.size then powerFrom? 1 base exponent.toInt.toNat
  else largePower? base exponent

/-- Whether a number is real and below zero. -/
def isNegativeReal (a : Number) : Bool :=
  match a.toFloat? with
  | some x => decide (x < 0.0)
  | none => false

/-- Powers. Integers stay integers under natural exponents; a negative float with a fractional
exponent has a complex power. -/
def power (a b : Number) : Except Error Number := do
  if a.isZero && b.isNegativeReal then throw (.domain .zeroToNegative)
  match promote a b with
  | .int x y =>
    if y < 0 then return .float (Float.pow (floatOfInt x) (floatOfInt y))
    else orOverflow "power" (intPower? x y)
  | .float x y =>
    if decide (x < 0.0) && Binary64.hasFraction y then
      return .complex (Complex.pow ⟨x, 0.0⟩ ⟨y, 0.0⟩)
    else return .float (Float.pow x y)
  | .complex x y => return .complex (x.pow y)

/-- The order of two real numbers. Integers are compared exactly and otherwise both as floats. -/
def compare (operation : String) (a b : Number) : Except Error (Option Ordering) :=
  match promote a b with
  | .int x y => .ok (some (Ord.compare x.toInt y.toInt))
  | .float x y => .ok (Binary64.compare? x y)
  | .complex _ _ => .error (.domain (.complexOperand operation))

/-- Whether the order of two numbers is one of `wanted`. -/
def ordered (operation : String) (wanted : List Ordering) (a b : Number) : Except Error Bool := do
  match ← compare operation a b with
  | some order => return wanted.contains order
  | none => return false

/-- The first number, unless a later one stands in the order `wanted` to the best so far. -/
def extreme (operation : String) (wanted : Ordering) : Number → List Number → Except Error Number
  | best, [] => .ok best
  | best, candidate :: rest => do
    let order ← compare operation candidate best
    extreme operation wanted (if order == some wanted then candidate else best) rest

end FlatLisp.Number
