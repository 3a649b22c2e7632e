import FlatLisp.Call.Signature
import FlatLisp.World.Basic

/-!
# Typed functions

A function outside of the language is declared by the types of its parameters. From them follow its
signature and the reading of its arguments: what `Signature.adapt` has accepted, `Args.read` takes
apart without a further failure, and the function receives plain payloads.
-/

namespace FlatLisp

/-- What a parameter of a function takes. -/
inductive ParamType where
  /-- Any value. -/
  | value
  /-- An operand that is not evaluated. -/
  | program
  | bool
  | int
  | float
  | complex
  /-- A number of any kind. -/
  | number
  | symbol
  | function
  | object
deriving DecidableEq, Repr

namespace ParamType

/-- The type of what the function receives. -/
@[reducible] def Carrier (E : Type) : ParamType → Type
  | value => Value E
  | program => Program
  | bool => Bool
  | int => Int64
  | float => Float
  | complex => Complex
  | number => Number
  | symbol => String
  | function => Function E
  | object => Object E

/-- The requirement on the argument. -/
def spec : ParamType → ParamSpec
  | value => .any
  | program => .program
  | bool => .payload .bool
  | int => .payload .int
  | float => .payload .float
  | complex => .payload .complex
  | number => .payload .number
  | symbol => .payload .symbol
  | function => .payload .function
  | object => .payload .object

variable {E : Type}

/-- The payload in a value of the right kind. -/
def ofValue? : (type : ParamType) → Value E → Option (type.Carrier E)
  | value, v => some v
  | program, _ => none
  | bool, .bool b => some b
  | int, .int n => some n
  | float, .float x => some x
  | complex, .complex c => some c
  | number, v => v.number?
  | symbol, .symbol text => some text
  | function, .function f => some f
  | object, .object o => some o
  | _, _ => none

/-- The payload of exactly the right type; `id` numbers an object made of an unclaimed payload. -/
def ofForeign? (id : Nat) : (type : ParamType) → Foreign E → Option (type.Carrier E)
  | value, raw => some (raw.ensure id)
  | program, _ => none
  | bool, .bool b => some b
  | int, .int64 n => some n
  | float, .float x => some x
  | complex, .complex c => some c
  | number, .int64 n => some (.int n)
  | number, .float x => some (.float x)
  | number, .complex c => some (.complex c)
  | symbol, .text s => some s
  | function, .function f => some f
  | object, .object o => some o
  | _, _ => none

/-- The program in an operand that is not evaluated. -/
def ofProgram? : (type : ParamType) → Program → Option (type.Carrier E)
  | program, p => some p
  | _, _ => none

/-- Read the operand at `position`. -/
def read (type : ParamType) (operand : Operand E) (position : Nat) : EvalM E (type.Carrier E) := do
  let payload? ← match operand with
    | .value v => pure (type.ofValue? v)
    | .program p => pure (type.ofProgram? p)
    | .raw payload => do pure (type.ofForeign? (← EvalM.newId) payload)
  match payload? with
  | some payload => return payload
  | none => throw (.typeMismatch position type.spec.expected operand.kindName)

end ParamType

/-- The arguments of a function with the given fixed parameters and, maybe, any number of further
arguments of one type. -/
@[reducible] def Args (E : Type) : List ParamType → Option ParamType → Type
  | [], none => Unit
  | [], some type => List (type.Carrier E)
  | type :: types, rest => type.Carrier E × Args E types rest

namespace Args

variable {E : Type}

/-- Read every operand from `position` on as the same type. -/
def readRest (type : ParamType) : (position : Nat) → List (Operand E) → EvalM E (List (type.Carrier E))
  | _, [] => return []
  | position, operand :: operands => do
    let first ← type.read operand position
    let rest ← readRest type (position + 1) operands
    return first :: rest

/-- Read the operands from `position` on. `missing` is the failure if there are too few. -/
def readFrom (missing : Error) : (types : List ParamType) → (rest : Option ParamType) →
    (position : Nat) → List (Operand E) → EvalM E (Args E types rest)
  | [], none, _, _ => return ()
  | [], some type, position, operands => readRest type position operands
  | _ :: _, _, _, [] => throw missing
  | type :: types, rest, position, operand :: operands => do
    let first ← type.read operand position
    let others ← readFrom missing types rest (position + 1) operands
    return (first, others)

end Args

/-- What a running function may ask of the evaluation that called it. -/
structure Caller (E : Type) where
  /-- The scope that the function is called from. -/
  scope : ScopeId
  evaluate : ScopeId → Program → EvalM E (Value E)
  /-- Call a function from the same scope. -/
  call : Function E → List (Operand E) → EvalM E (Value E)

/-- A function declared by the types of its parameters. -/
structure Typed (E : Type) where
  params : List ParamType
  rest : Option ParamType
  /-- Whether the function acts on the scope that it is called from. -/
  wantsScope : Bool
  run : Caller E → Args E params rest → EvalM E (Value E)

namespace Typed

variable {E : Type}

/-- The signature that follows from the types of the parameters. -/
def signature (f : Typed E) : Signature :=
  Signature.ofParams (f.params.map ParamType.spec) (f.rest.map ParamType.spec) f.wantsScope

/-- The signature, unless it would mix programs and evaluated arguments. -/
def checkedSignature (f : Typed E) : Except Error Signature :=
  Signature.infer (f.params.map ParamType.spec) (f.rest.map ParamType.spec) f.wantsScope

/-- How many arguments the function takes. -/
def arity (f : Typed E) : Arity :=
  if f.rest.isSome then .atLeast f.params.length else .exactly f.params.length

/-- Read the arguments from adapted operands and run the function. -/
def invoke (f : Typed E) (caller : Caller E) (operands : List (Operand E)) : EvalM E (Value E) := do
  let args ← Args.readFrom (.arityMismatch f.arity operands.length) f.params f.rest 1 operands
  f.run caller args

end Typed

/-- A function outside of the language. -/
inductive Native (E : Type) where
  | typed (f : Typed E)
  /-- A function of payloads, which takes whatever it is given. -/
  | passThrough (run : List (Foreign E) → EvalM E (Foreign E))

namespace Native

variable {E : Type}

/-- The calling convention of the function. -/
def signature : Native E → Signature
  | typed f => f.signature
  | passThrough _ => .passThrough

/-- Run the function on adapted operands. -/
def invoke (caller : Caller E) : Native E → List (Operand E) → EvalM E (Value E)
  | typed f, operands => f.invoke caller operands
  | passThrough run, operands => do
    let payload ← run (operands.map Operand.toForeign)
    return payload.ensure (← EvalM.newId)

end Native

/-- The functions that an embedder adds, and what they do. -/
class Embedding (E : Type) where
  native : E → Native E
  /-- How many of these functions can call one another without an evaluation in between, before the
  stack of the machine is used up. Nothing in the language depends on the number. -/
  directCalls : Nat

/-- No functions are added. -/
instance : Embedding Empty where
  native e := e.elim
  directCalls := 0

end FlatLisp
