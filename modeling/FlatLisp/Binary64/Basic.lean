/-!
# Binary floating point numbers, exactly

A finite float is a sign, a natural mantissa and a power of two. This module takes floats apart and
puts them together, and `nearest` rounds any number `mantissa * 2 ^ exponent` to the closest float,
the one with the even mantissa when two are equally close. The operations that depend on a value
and not on its rounding (whole parts, remainders, the length of a vector) are computed here in exact
integer arithmetic.
-/

namespace FlatLisp.Binary64

/-- A float as what it stands for. A finite one is `mantissa * 2 ^ exponent` with its sign. -/
inductive Parts where
  | nan
  | infinite (negative : Bool)
  | finite (negative : Bool) (mantissa : Nat) (exponent : Int)
deriving DecidableEq, Repr

/-- Exponent of the last bit of the smallest floats. -/
def minExponent : Int := -1074

/-- A power of two. -/
def twoPow (n : Nat) : Nat :=
  Nat.pow 2 n

/-- Take a float apart. -/
def parts (x : Float) : Parts :=
  let bits := x.toBits.toNat
  let negative := decide (twoPow 63 ≤ bits)
  let biased : Nat := bits / twoPow 52 % twoPow 11
  let fraction := bits % twoPow 52
  if biased = 2047 then
    if fraction = 0 then .infinite negative else .nan
  else if biased = 0 then .finite negative fraction minExponent
  else .finite negative (twoPow 52 + fraction) (biased + minExponent - 1)

/-- Whether the sign of a float is minus; zeros and infinities have signs too. -/
def isNegative (x : Float) : Bool :=
  decide (twoPow 63 ≤ x.toBits.toNat)

/-- Quotient by a power of two, rounded to the nearest integer and at a tie to the even one. -/
def shiftRightEven (m shift : Nat) : Nat :=
  let quotient := m / twoPow shift
  let twice := 2 * (m % twoPow shift)
  if twice > twoPow shift ∨ (twice = twoPow shift ∧ quotient % 2 = 1) then quotient + 1 else quotient

/-- Bits of positive infinity, which stand just above those of the largest finite float. -/
def infinityBits : Nat := 2047 * twoPow 52

/-- The bits, without the sign, of the float nearest to `mantissa * 2 ^ exponent`. -/
def nearestBits (mantissa : Nat) (exponent : Int) : Nat :=
  if mantissa = 0 then 0
  else
    let last := max (mantissa.log2 + exponent - 52) minExponent
    let rounded :=
      if last ≤ exponent then mantissa * twoPow (exponent - last).toNat
      else shiftRightEven mantissa (last - exponent).toNat
    min ((last - minExponent).toNat * twoPow 52 + rounded) infinityBits

/-- The float nearest to `mantissa * 2 ^ exponent`, with the given sign. -/
def nearest (negative : Bool) (mantissa : Nat) (exponent : Int) : Float :=
  let bits := nearestBits mantissa exponent
  Float.ofBits (UInt64.ofNat (if negative then twoPow 63 + bits else bits))

/-- Positive infinity. -/
def infinity : Float := Float.ofBits (UInt64.ofNat infinityBits)

/-- A value that is no number. -/
def nan : Float := 0.0 / 0.0

/-- The place of a float among all floats in their order: both zeros at zero, and one step for each
float up to the infinities. What is no number has no place. -/
def rank? (x : Float) : Option Int :=
  let magnitude := x.toBits.toNat % twoPow 63
  if infinityBits < magnitude then none
  else some (if isNegative x then -(magnitude : Int) else magnitude)

/-- The order of two floats; none if one of them is no number. -/
def compare? (x y : Float) : Option Ordering :=
  match rank? x, rank? y with
  | some a, some b => some (compare a b)
  | _, _ => none

/-- The float nearest to an integer. -/
def ofInt (n : Int) : Float :=
  nearest (decide (n < 0)) n.natAbs 0

/-- Ways to make a number whole. -/
inductive Rounding where
  /-- Toward negative infinity. -/
  | down
  /-- Toward positive infinity. -/
  | up
  /-- Toward zero. -/
  | towardZero
  /-- To the nearest whole number, and at a tie to the even one. -/
  | nearestEven
deriving DecidableEq, Repr

/-- The whole magnitude that `mantissa / 2 ^ shift` is rounded to. -/
def Rounding.magnitude (rounding : Rounding) (negative : Bool) (mantissa shift : Nat) : Nat :=
  let quotient := mantissa / twoPow shift
  let away := if mantissa % twoPow shift = 0 then quotient else quotient + 1
  match rounding with
  | .down => if negative then away else quotient
  | .up => if negative then quotient else away
  | .towardZero => quotient
  | .nearestEven => shiftRightEven mantissa shift

/-- The whole float that `x` is rounded to; the sign is kept, also on zero. -/
def round (rounding : Rounding) (x : Float) : Float :=
  match parts x with
  | .finite negative mantissa exponent =>
    if 0 ≤ exponent then x
    else nearest negative (rounding.magnitude negative mantissa (-exponent).toNat) 0
  | _ => x

/-- Largest whole float not above `x`. -/
def floor (x : Float) : Float := round .down x

/-- Smallest whole float not below `x`. -/
def ceil (x : Float) : Float := round .up x

/-- Whole part of `x`. -/
def truncate (x : Float) : Float := round .towardZero x

/-- The integer `x` is equal to, cut off toward zero; none for infinities and what is no number. -/
def toInt? (x : Float) : Option Int :=
  match parts x with
  | .finite negative mantissa exponent =>
    let magnitude :=
      if 0 ≤ exponent then mantissa * twoPow exponent.toNat else mantissa / twoPow (-exponent).toNat
    some (if negative then -(magnitude : Int) else magnitude)
  | _ => none

/-- Whether `x` differs from its whole part; infinities and what is no number do too, since their
difference is no number. -/
def hasFraction (x : Float) : Bool :=
  !(x - truncate x == 0.0)

/-- Remainder of the division of `x` by `y` whose quotient is cut off toward zero. It is exact and
has the sign of `x`. -/
def remainder (x y : Float) : Float :=
  match parts x, parts y with
  | .finite _ _ _, .infinite _ => x
  | .finite negative m e, .finite _ n f =>
    if n = 0 then nan
    else
      let low := min e f
      let dividend := m * twoPow (e - low).toNat
      let divisor := n * twoPow (f - low).toNat
      nearest negative (dividend % divisor) low
  | _, _ => nan

/-- Length of the vector `(x, y)`, correctly rounded. It is infinite as soon as one side is. -/
def hypotenuse (x y : Float) : Float :=
  match parts x, parts y with
  | .infinite _, _ => infinity
  | _, .infinite _ => infinity
  | .finite _ m e, .finite _ n f =>
    let low := min e f
    let a := m * twoPow (e - low).toNat
    let b := n * twoPow (f - low).toNat
    -- 64 more bits than the root needs, and one that records whether it is exact
    let square := (a * a + b * b) * twoPow 128
    let root := square.sqrt
    nearest false (2 * root + if root * root = square then 0 else 1) (low - 65)
  | _, _ => nan

end FlatLisp.Binary64
