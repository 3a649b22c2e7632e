import FlatLisp.Binary64.Text

/-!
# Complex numbers

Pairs of floats. Each operation is the schoolbook formula, evaluated in the order written, so every
intermediate step rounds once. Powers go through the principal logarithm.
-/

namespace FlatLisp

/-- A complex number `re + im * j`. -/
structure Complex where
  re : Float
  im : Float
deriving DecidableEq

namespace Complex

/-- Zero, with both signs plus. -/
def zero : Complex := ⟨0.0, 0.0⟩

/-- Whether both parts compare equal. -/
def same (a b : Complex) : Bool :=
  a.re == b.re && a.im == b.im

/-- Whether both parts are zero, of either sign. -/
def isZero (c : Complex) : Bool :=
  c.re == 0.0 && c.im == 0.0

/-- Distance from zero. -/
def norm (c : Complex) : Float :=
  Binary64.hypotenuse c.re c.im

/-- The sum, part by part. -/
def add (a b : Complex) : Complex :=
  ⟨a.re + b.re, a.im + b.im⟩

/-- The difference, part by part. -/
def sub (a b : Complex) : Complex :=
  ⟨a.re - b.re, a.im - b.im⟩

/-- The product. -/
def mul (a b : Complex) : Complex :=
  ⟨a.re * b.re - a.im * b.im, a.re * b.im + a.im * b.re⟩

/-- The quotient, over the square of the length of the divisor. -/
def div (a b : Complex) : Complex :=
  let denominator := b.re * b.re + b.im * b.im
  ⟨(a.re * b.re + a.im * b.im) / denominator, (a.im * b.re - a.re * b.im) / denominator⟩

/-- Principal natural logarithm. -/
def log (c : Complex) : Complex :=
  ⟨c.norm.log, Float.atan2 c.im c.re⟩

/-- The exponential function. -/
def exp (c : Complex) : Complex :=
  let scale := c.re.exp
  ⟨scale * c.im.cos, scale * c.im.sin⟩

/-- Principal power; zero to any power is zero. -/
def pow (base exponent : Complex) : Complex :=
  if base.isZero then zero else (exponent.mul base.log).exp

/-- A pure imaginary number is written `2j`, any other as `(1+2j)`. All NaNs are one value of
`Float`, which is not negative, so an imaginary part that is a NaN has the sign `+`, whatever its bits
on the machine are. -/
def render (c : Complex) : String :=
  let part := Binary64.Layout.inline.render
  if c.re == 0.0 && !Binary64.isNegative c.re then part c.im ++ "j"
  else
    let sign := if Binary64.isNegative c.im then "-" else "+"
    "(" ++ part c.re ++ sign ++ part c.im.abs ++ "j)"

/-- The place in `cs` where the imaginary part starts: the last sign that is neither the first
character nor, since it follows an `e`, the sign of an exponent. `previous` is the character in
front of `cs`. The result counts from there. -/
def lastSign? : (previous : Char) → List Char → Option Nat
  | _, [] => none
  | previous, c :: cs =>
    match lastSign? c cs with
    | some i => some (i + 1)
    | none =>
      if (c = '+' ∨ c = '-') ∧ previous ≠ 'e' ∧ previous ≠ 'E' then some 0 else none

/-- The real and the imaginary part of a complex literal without its `j`. -/
def splitParts : List Char → List Char × List Char
  | [] => ([], [])
  | c :: cs =>
    match lastSign? c cs with
    | some i => (c :: cs.take i, cs.drop i)
    | none => ([], c :: cs)

/-- The complex number with the given spellings of its parts. The imaginary part has a digit in it,
and a real part that is left out is zero. -/
def ofParts? (re im : List Char) : Option Complex :=
  if im.any Char.isDigit then
    (Binary64.read? im).bind fun y =>
      (if re.isEmpty then some 0.0 else Binary64.read? re).map fun x => ⟨x, y⟩
  else none

/-- Read a literal such as `2j`, `-1.5j`, `1+2j` or `3e2-4J`. -/
def read? (cs : List Char) : Option Complex :=
  match cs.getLast? with
  | some last =>
    if last = 'j' ∨ last = 'J' then
      let (re, im) := splitParts cs.dropLast
      ofParts? re im
    else none
  | none => none

end Complex

end FlatLisp
