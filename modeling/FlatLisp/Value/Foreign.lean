import FlatLisp.Value.Basic

/-!
# Values of the host

Functions of the host work on payloads of their own types. Each kind of value claims some of these
types, no type is claimed twice, and a payload that no kind claims is hidden in an object. So every
payload can be made a value (`Foreign.ensure`), and a value that is turned into its payload and back
is the same value.
-/

namespace FlatLisp

/-- A payload of the host. -/
inductive Foreign (E : Type) where
  | bool (b : Bool)
  | int64 (n : Int64)
  | int32 (n : Int32)
  | word32 (n : UInt32)
  | float (x : Float)
  /-- A single precision float. -/
  | single (x : Float32)
  | complex (c : Complex)
  | text (s : String)
  /-- Text that is part of the program of the host. -/
  | fixedText (s : String)
  | unit
  | function (f : Function E)
  | object (o : Object E)
  /-- A value of the language in the hands of the host. -/
  | boxed (v : Value E)
  /-- A payload of a type that no kind claims. -/
  | unclaimed

variable {E : Type}

/-- The payload of a value. -/
def Value.toForeign : Value E → Foreign E
  | .bool b => .bool b
  | .int n => .int64 n
  | .float x => .float x
  | .complex c => .complex c
  | .symbol text => .text text
  | .empty => .unit
  | .function f => .function f
  | .object o => .object o

/-- Make a payload a value of the kind if the kind claims it, or else hand it back. Objects take any
payload: one that is not an object is hidden in a new object numbered `id`. -/
def Kind.wrap (kind : Kind) (id : Nat) (raw : Foreign E) : Except (Foreign E) (Value E) :=
  match kind, raw with
  | .bool, .bool b => .ok (.bool b)
  | .int, .int64 n => .ok (.int n)
  | .int, .int32 n => .ok (.int n.toInt64)
  | .int, .word32 n => .ok (.int n.toUInt64.toInt64)
  | .float, .float x => .ok (.float x)
  | .float, .single x => .ok (.float x.toFloat)
  | .complex, .complex c => .ok (.complex c)
  | .symbol, .text s => .ok (.symbol s)
  | .symbol, .fixedText s => .ok (.symbol s)
  | .empty, .unit => .ok .empty
  | .function, .function f => .ok (.function f)
  | .object, .object o => .ok (.object o)
  | .object, _ => .ok (.object (Object.hidden id))
  | _, raw => .error raw

namespace Foreign

/-- Ask the kinds in turn; what none of them claims becomes an object. -/
def claim (id : Nat) : List Kind → Foreign E → Value E
  | [], raw =>
    match raw with
    | .object o => .object o
    | _ => .object (Object.hidden id)
  | kind :: kinds, raw =>
    match kind.wrap id raw with
    | .ok v => v
    | .error raw => claim id kinds raw

/-- Make any payload a value. A boxed value is itself; an object that has to be made is numbered
`id`. -/
def ensure (id : Nat) : Foreign E → Value E
  | .boxed v => v
  | raw => claim id Kind.priority raw

end Foreign

/-- The payload of a value stands for that value again. -/
@[simp] theorem Foreign.ensure_toForeign (id : Nat) (v : Value E) : ensure id v.toForeign = v := by
  cases v <;> rfl

end FlatLisp
