import FlatLisp.Binary64.Basic

/-!
# Shortest decimals

The decimal of a float is the one with the fewest digits that reads back as the same float, and
among those of that length the one nearest to the float; a tie goes away from zero. For each number
of digits the two neighbours of the float on that decimal grid are tested against the interval of
all reals that round to the float.
-/

namespace FlatLisp.Binary64

/-- The number `digits * 10 ^ exponent`. -/
structure Decimal where
  digits : Nat
  exponent : Int
deriving DecidableEq, Repr

/-- A positive rational `numerator / denominator`. -/
structure Ratio where
  numerator : Nat
  denominator : Nat

/-- The rational `n * 2 ^ e`. -/
def Ratio.dyadic (n : Nat) (e : Int) : Ratio :=
  if 0 ≤ e then ⟨n * twoPow e.toNat, 1⟩ else ⟨n, twoPow (-e).toNat⟩

/-- The rational `r / 10 ^ k`. -/
def Ratio.scale (r : Ratio) (k : Int) : Ratio :=
  if 0 ≤ k then ⟨r.numerator, r.denominator * Nat.pow 10 k.toNat⟩
  else ⟨r.numerator * Nat.pow 10 (-k).toNat, r.denominator⟩

/-- Greatest `k` with `10 ^ k ≤ mantissa * 2 ^ exponent`, for a positive mantissa. The estimate from
the binary length is off by one at most. -/
def decimalMagnitude (mantissa : Nat) (exponent : Int) : Int :=
  let estimate := Int.fdiv ((mantissa.log2 + exponent) * 30103) 100000
  let reaches (k : Int) : Bool :=
    let r := (Ratio.dyadic mantissa exponent).scale k
    r.denominator ≤ r.numerator
  if reaches (estimate + 1) then estimate + 1
  else if reaches estimate then estimate
  else estimate - 1

/-- The point of the decimal grid of width `10 ^ k` that stands for `mantissa * 2 ^ exponent`, if
one of the two neighbours on the grid rounds to it. -/
def onGrid? (mantissa : Nat) (exponent : Int) (k : Int) : Option Nat :=
  -- all four quantities are quarters of the last bit, divided by the width of the grid
  let quarters (n : Nat) : Ratio := (Ratio.dyadic n (exponent - 2)).scale k
  let value := quarters (4 * mantissa)
  let upper := quarters (4 * mantissa + 2)
  let narrow := mantissa = twoPow 52 ∧ minExponent < exponent
  let lower := quarters (if narrow then 4 * mantissa - 1 else 4 * mantissa - 2)
  let closed := mantissa % 2 = 0
  let unit := value.denominator
  let below := value.numerator / unit
  let above := below + 1
  let hitsBelow := if closed then lower.numerator ≤ below * unit else lower.numerator < below * unit
  let hitsAbove := if closed then above * unit ≤ upper.numerator else above * unit < upper.numerator
  let nearerBelow := 2 * (value.numerator - below * unit) < unit
  if hitsBelow ∧ below ≠ 0 ∧ (nearerBelow ∨ ¬ hitsAbove) then some below
  else if hitsAbove then some above
  else none

/-- The shortest decimal of `mantissa * 2 ^ exponent`, which is positive. Seventeen digits always
suffice. -/
def shortest (mantissa : Nat) (exponent : Int) : Decimal :=
  let magnitude := decimalMagnitude mantissa exponent
  let withDigits (count : Nat) : Option Decimal :=
    let k := magnitude - count
    (onGrid? mantissa exponent k).map (⟨·, k⟩)
  ((List.range 17).findSome? withDigits).getD ⟨0, 0⟩

end FlatLisp.Binary64
