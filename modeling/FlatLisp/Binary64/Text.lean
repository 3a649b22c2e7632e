import FlatLisp.Binary64.Shortest
import FlatLisp.Text.Numeral

/-!
# Floats in text

A float is written from its shortest decimal. Two layouts are in use: values of the language
always look like floats and switch to an exponent far from one, while the parts of complex numbers
and numbers in messages are written positionally in full. Reading accepts an optional sign and
then digits with at most one point and an optional exponent, or one of the names of infinity and
of what is no number, in any case; the result is the float nearest to the decimal.
-/

namespace FlatLisp.Binary64

/-- How a decimal is laid out. -/
structure Layout where
  /-- The powers of ten of the leading digit, least and greatest, that are written positionally;
  without bounds all are. -/
  positional : Option (Int × Int)
  /-- What follows the digits of a whole number. -/
  wholeMark : String

/-- Floats as values: at least one digit after the point, and an exponent from `1e16` up and below
`1e-4`. -/
def Layout.value : Layout := ⟨some (-4, 15), ".0"⟩

/-- Floats inside other text: positional whatever the size, and without a point if whole. -/
def Layout.inline : Layout := ⟨none, ""⟩

/-- Whether a decimal whose leading digit counts `10 ^ lead` is written positionally. -/
def Layout.isPositional (layout : Layout) (lead : Int) : Bool :=
  match layout.positional with
  | none => true
  | some (least, greatest) => least ≤ lead && lead ≤ greatest

/-- A run of zeros. -/
def zeros (count : Nat) : List Char :=
  List.replicate count '0'

/-- Digits without the zeros at their end. -/
def withoutTrailingZeros (digits : List Char) : List Char :=
  (digits.reverse.dropWhile (· == '0')).reverse

/-- The digits `ds`, whose first counts `10 ^ lead`, in positional notation. -/
def Layout.positionally (layout : Layout) (ds : List Char) (lead : Int) : String :=
  if lead < 0 then String.ofList ('0' :: '.' :: zeros (-lead - 1).toNat ++ ds)
  else
    let wholeDigits := lead.toNat + 1
    if ds.length ≤ wholeDigits then
      String.ofList (ds ++ zeros (wholeDigits - ds.length)) ++ layout.wholeMark
    else String.ofList (ds.take wholeDigits ++ '.' :: ds.drop wholeDigits)

/-- The digits `ds`, whose first counts `10 ^ lead`, with an exponent. -/
def scientifically (ds : List Char) (lead : Int) : String :=
  let tail := ds.drop 1
  String.ofList (ds.take 1 ++ if tail.isEmpty then [] else '.' :: tail) ++ "e" ++ lead.repr

/-- The text of a decimal that is not zero. -/
def Layout.decimal (layout : Layout) (d : Decimal) : String :=
  let all := Nat.toDigits 10 d.digits
  let lead := d.exponent + all.length - 1
  let ds := withoutTrailingZeros all
  if layout.isPositional lead then layout.positionally ds lead else scientifically ds lead

/-- The text of a float. -/
def Layout.render (layout : Layout) (x : Float) : String :=
  match parts x with
  | .nan => "NaN"
  | .infinite negative => if negative then "-inf" else "inf"
  | .finite negative mantissa exponent =>
    (if negative then "-" else "") ++
      if mantissa = 0 then "0" ++ layout.wholeMark
      else layout.decimal (shortest mantissa exponent)

/-- The float nearest to a decimal. Decimals whose leading digit is out of reach are settled without
computing their power of ten. -/
def ofDecimal (digits : Nat) (exponent : Int) : Float :=
  let lead := exponent + (Nat.toDigits 10 digits).length
  if digits = 0 ∨ lead < -330 then 0.0
  else if 310 < lead then infinity
  else Float.ofScientific digits (decide (exponent < 0)) exponent.natAbs

/-- The power of ten that an exponent part stands for; nothing stands for no scaling. -/
def readExponent? : List Char → Option Int
  | [] => some 0
  | c :: cs => if c = 'e' ∨ c = 'E' then Numeral.int? cs else none

/-- The digits on the two sides of the point, and what follows them. -/
def splitPoint (cs : List Char) : List Char × List Char × List Char :=
  match cs.dropWhile Char.isDigit with
  | '.' :: rest => (cs.takeWhile Char.isDigit, rest.takeWhile Char.isDigit, rest.dropWhile Char.isDigit)
  | rest => (cs.takeWhile Char.isDigit, [], rest)

/-- The decimal `digits * 10 ^ exponent` that an unsigned decimal numeral stands for. -/
def readDecimal? (cs : List Char) : Option Decimal :=
  let (whole, fraction, rest) := splitPoint cs
  if whole.isEmpty && fraction.isEmpty then none
  else (readExponent? rest).map fun exponent =>
    ⟨Numeral.value (whole ++ fraction), exponent - fraction.length⟩

/-- The number that an unsigned word stands for in any case. -/
def readName? (cs : List Char) : Option Float :=
  match String.ofList (cs.map Char.toLower) with
  | "inf" => some infinity
  | "infinity" => some infinity
  | "nan" => some nan
  | _ => none

/-- The magnitude that unsigned text stands for. -/
def readMagnitude? (cs : List Char) : Option Float :=
  match readDecimal? cs with
  | some d => some (ofDecimal d.digits d.exponent)
  | none => readName? cs

/-- The float that `cs` stands for, if all of it is one number. -/
def read? (cs : List Char) : Option Float :=
  let (negative, magnitude) := Numeral.splitSign cs
  (readMagnitude? magnitude).map fun x => if negative then -x else x

/-- The single precision float nearest to a decimal. -/
def singleOfDecimal (digits : Nat) (exponent : Int) : Float32 :=
  let lead := exponent + (Nat.toDigits 10 digits).length
  if digits = 0 ∨ lead < -60 then 0.0
  else if 45 < lead then 1.0 / 0.0
  else Float32.ofScientific digits (decide (exponent < 0)) exponent.natAbs

/-- The single precision float that `cs` stands for, rounded once from the decimal. -/
def readSingle? (cs : List Char) : Option Float32 :=
  let (negative, magnitude) := Numeral.splitSign cs
  let unsigned :=
    match readDecimal? magnitude with
    | some d => some (singleOfDecimal d.digits d.exponent)
    | none => (readName? magnitude).map Float.toFloat32
  unsigned.map fun x => if negative then -x else x

end FlatLisp.Binary64
