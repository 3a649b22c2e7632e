import FlatLisp.Call.Parameter
import FlatLisp.Number.Arithmetic
import FlatLisp.Text.Blank

/-!
# Standard host functions

Host functions take payloads as they come, so each checks its one argument itself. Functions of the
reals accept any real number. Results that have to be whole are integers.
-/

namespace FlatLisp.HostFunction

open FlatLisp.Text

variable {E : Type}

/-- The only argument. -/
def single : List (Foreign E) → Except Error (Foreign E)
  | [payload] => .ok payload
  | payloads => .error (.arityMismatch (.exactly 1) payloads.length)

/-- A payload as a value. Objects made here are looked at for their kind only, so they need no
number of their own. -/
def view (payload : Foreign E) : Value E :=
  payload.ensure 0

/-- A payload that is a number. -/
def number (payload : Foreign E) : Except Error Number :=
  match (view payload).number? with
  | some n => .ok n
  | none => .error (.typeMismatch 1 Kind.number.name (view payload).kind.name)

/-- A payload that is a real number, as a float. -/
def real (payload : Foreign E) : Except Error Float := do
  match (← number payload).toFloat? with
  | some x => return x
  | none => throw (.typeMismatch 1 "real number" Kind.complex.name)

/-- A whole float as an integer. -/
def toInteger (x : Float) : Except Error Int64 :=
  match (Binary64.toInt? x).bind narrow? with
  | some n => .ok n
  | none => .error (.domain (.notAnInteger x))

/-- A function of the reals. It fails where it makes what is no number of a number, or something
infinite of something finite. -/
def realFunction (f : Float → Float) (payloads : List (Foreign E)) : Except Error (Foreign E) := do
  let x ← real (← single payloads)
  let y := f x
  if (y.isNaN && !x.isNaN) || (y.isInf && x.isFinite) then throw (.domain .undefinedPoint)
  return .float y

/-- A function that rounds a real number to an integer. -/
def wholeFunction (rounding : Binary64.Rounding) (payloads : List (Foreign E)) :
    Except Error (Foreign E) := do
  let x ← real (← single payloads)
  return .int64 (← toInteger (Binary64.round rounding x))

/-- A magnitude as an integer; that of the least integer is out of range. -/
def integerMagnitude (n : Int) : Except Error Int64 :=
  match narrow? n with
  | some k => .ok k
  | none => .error (.domain (.overflow "abs"))

/-- The magnitude of a number. -/
def magnitude (payloads : List (Foreign E)) : Except Error (Foreign E) := do
  match ← number (← single payloads) with
  | .int n => return .int64 (← integerMagnitude n.toInt.natAbs)
  | .float x => return .float x.abs
  | .complex c => return .float c.norm

/-- The integer nearest to a number, the even one at a tie. -/
def nearestInteger (payloads : List (Foreign E)) : Except Error (Foreign E) := do
  match ← number (← single payloads) with
  | .int n => return .int64 n
  | .float x => return .int64 (← toInteger (Binary64.round .nearestEven x))
  | .complex _ => throw (.domain .complexRounding)

/-- The failure of a conversion of something that is neither a real number nor text. -/
def unconvertible (v : Value E) : Error :=
  .typeMismatch 1 "real number or Symbol" v.kind.name

/-- Convert to a float; text may have blanks around the number. -/
def toFloat (payloads : List (Foreign E)) : Except Error (Foreign E) := do
  match view (← single payloads) with
  | .int n => return .float (Number.floatOfInt n)
  | .float x => return .float x
  | .bool b => return .float (if b then 1.0 else 0.0)
  | .symbol text =>
    match Binary64.read? (trim text.toList) with
    | some x => return .float x
    | none => throw (.domain (.unreadableFloat text))
  | v => throw (unconvertible v)

/-- Convert to an integer, cutting off a fraction; text may have blanks around the number. -/
def toInt (payloads : List (Foreign E)) : Except Error (Foreign E) := do
  match view (← single payloads) with
  | .int n => return .int64 n
  | .float x => return .int64 (← toInteger (Binary64.truncate x))
  | .bool b => return .int64 (if b then 1 else 0)
  | .symbol text =>
    match Numeral.int64? (trim text.toList) with
    | some n => return .int64 n
    | none => throw (.domain (.unreadableInteger text))
  | v => throw (unconvertible v)

/-- What a standard host function does. -/
def run : HostFunction → List (Foreign E) → Except Error (Foreign E)
  | abs => magnitude
  | round => nearestInteger
  | float => toFloat
  | int => toInt
  | sqrt => realFunction Float.sqrt
  | exp => realFunction Float.exp
  | log => realFunction Float.log
  | sin => realFunction Float.sin
  | cos => realFunction Float.cos
  | floor => wholeFunction .down
  | ceil => wholeFunction .up

/-- A standard host function as a function outside of the language. -/
def native (f : HostFunction) : Native E :=
  .passThrough fun payloads => EvalM.ofExcept (f.run payloads)

end FlatLisp.HostFunction
