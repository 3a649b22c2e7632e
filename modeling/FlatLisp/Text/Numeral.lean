/-!
# Whole numbers in text

A numeral is a run of ASCII digits, and a signed numeral may have one sign in front of it. Integers
of the language have 64 bits: `narrow?` is the one place where a mathematical integer is checked
against that range.
-/

namespace FlatLisp

/-- The 64-bit integer equal to `n`, if there is one. -/
def narrow? (n : Int) : Option Int64 :=
  if Int64.minValue.toInt ≤ n ∧ n ≤ Int64.maxValue.toInt then some (Int64.ofInt n) else none

/-- Narrowing keeps the value. -/
theorem toInt_of_narrow? {n : Int} {k : Int64} (h : narrow? n = some k) : k.toInt = n := by
  unfold narrow? at h
  split at h
  · next bound =>
    cases h
    exact Int64.toInt_ofInt_of_le bound.1 (Int.lt_of_le_of_lt bound.2 (by decide))
  · cases h

/-- A 64-bit integer is its own narrowing. -/
@[simp] theorem narrow?_toInt (k : Int64) : narrow? k.toInt = some k := by
  have bound : Int64.minValue.toInt ≤ k.toInt ∧ k.toInt ≤ Int64.maxValue.toInt :=
    ⟨Int64.le_toInt k, Int.le_of_lt_add_one (Int64.toInt_lt k)⟩
  rw [narrow?, if_pos bound, Int64.ofInt_toInt]

namespace Numeral

/-- Whether `cs` is a numeral: at least one digit and nothing else. -/
def isNumeral (cs : List Char) : Bool :=
  !cs.isEmpty && cs.all Char.isDigit

/-- The number that a run of digits stands for. -/
def value (cs : List Char) : Nat :=
  Nat.ofDigitChars 10 cs 0

/-- Split off a sign; `true` stands for a minus. -/
def splitSign : List Char → Bool × List Char
  | '-' :: cs => (true, cs)
  | '+' :: cs => (false, cs)
  | cs => (false, cs)

/-- The integer with the given sign and magnitude. -/
def signed (negative : Bool) (magnitude : Nat) : Int :=
  if negative then -(magnitude : Int) else magnitude

/-- The integer that a signed numeral stands for. -/
def int? (cs : List Char) : Option Int :=
  let (negative, digits) := splitSign cs
  if isNumeral digits then some (signed negative (value digits)) else none

/-- The 64-bit integer that a signed numeral stands for; none when it is out of range. -/
def int64? (cs : List Char) : Option Int64 :=
  (int? cs).bind narrow?

/-- A 64-bit integer in decimal. -/
def render (n : Int64) : String :=
  n.toInt.repr

end Numeral

end FlatLisp
