import FlatLisp.Number.Complex

/-!
# Numbers

The numeric tower has three floors: 64-bit integers, floats and complex numbers. Two numbers meet on
the higher of their floors.
-/

namespace FlatLisp

/-- A number of any kind. -/
inductive Number where
  | int (n : Int64)
  | float (x : Float)
  | complex (c : Complex)
deriving DecidableEq

namespace Number

/-- The float nearest to an integer, the even one at a tie. -/
def floatOfInt (n : Int64) : Float :=
  Binary64.ofInt n.toInt

/-- A real number as a float. -/
def toFloat? : Number → Option Float
  | int n => some (floatOfInt n)
  | float x => some x
  | complex _ => none

/-- Any number as a complex number. -/
def toComplex : Number → Complex
  | int n => ⟨floatOfInt n, 0.0⟩
  | float x => ⟨x, 0.0⟩
  | complex c => c

/-- Whether a number is zero. -/
def isZero : Number → Bool
  | int n => n == 0
  | float x => x == 0.0
  | complex c => c.isZero

/-- Two numbers on their common floor. -/
inductive Pair where
  | int (x y : Int64)
  | float (x y : Float)
  | complex (x y : Complex)

/-- Lift two numbers to their common floor. -/
def promote : Number → Number → Pair
  | int x, int y => .int x y
  | int x, float y => .float (floatOfInt x) y
  | float x, int y => .float x (floatOfInt y)
  | float x, float y => .float x y
  | a, b => .complex a.toComplex b.toComplex

end Number

end FlatLisp
