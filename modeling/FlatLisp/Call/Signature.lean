import FlatLisp.Error
import FlatLisp.Value.Foreign

/-!
# Signatures

A signature says what a function wants at each position and whether its operands are evaluated
first. `Signature.adapt` checks the number of operands, then each of them from left to right, and
replaces a value by its payload where the function asks for that.
-/

namespace FlatLisp

/-- An argument on its way into a function. -/
inductive Operand (E : Type) where
  | value (v : Value E)
  /-- An argument that was not evaluated. -/
  | program (p : Program)
  /-- A payload of the host. -/
  | raw (payload : Foreign E)

namespace Operand

variable {E : Type}

/-- The name of what an operand is, for messages. -/
def kindName : Operand E → String
  | value v => v.kind.name
  | program _ => Kind.program.name
  | raw _ => "raw payload"

/-- Replace a value by its payload. -/
def flatten : Operand E → Operand E
  | value v => .raw v.toForeign
  | other => other

/-- The operand as a payload of the host. -/
def toForeign : Operand E → Foreign E
  | value v => v.toForeign
  | program _ => .unclaimed
  | raw payload => payload

end Operand

/-- The requirement on one argument. -/
structure ParamSpec where
  /-- The kind that is required; without one anything will do. -/
  kind : Option Kind
  /-- Whether the function gets the payload and not the value. -/
  flatten : Bool
deriving DecidableEq, Repr

namespace ParamSpec

/-- Any value, as it is. -/
def any : ParamSpec := ⟨none, false⟩

/-- An operand that is not evaluated. -/
def program : ParamSpec := ⟨some .program, false⟩

/-- The payload of a value of the kind. -/
def payload (kind : Kind) : ParamSpec := ⟨some kind, true⟩

/-- Whether the operand is wanted unevaluated. -/
def isProgram (spec : ParamSpec) : Bool :=
  spec.kind == some .program

/-- The requirement in words. -/
def expected (spec : ParamSpec) : String :=
  match spec.kind with
  | none => "any value"
  | some kind => kind.name

variable {E : Type}

/-- Whether an operand meets the requirement. A kind is met by evaluated values only. -/
def accepts (spec : ParamSpec) (operand : Operand E) : Bool :=
  match spec.kind, operand with
  | none, _ => true
  | some .program, .program _ => true
  | some kind, .value v => kind.accepts v
  | some _, _ => false

/-- Check the operand at `position` and bring it into the form that the function asks for. -/
def adapt (spec : ParamSpec) (operand : Operand E) (position : Nat) : Except Error (Operand E) :=
  if spec.accepts operand then .ok (if spec.flatten then operand.flatten else operand)
  else .error (.typeMismatch position spec.expected operand.kindName)

end ParamSpec

/-- The calling convention of a function. -/
structure Signature where
  /-- The fixed parameters; without them every operand is passed on as its payload, unchecked. -/
  parameters : Option (List ParamSpec)
  /-- The requirement on each argument past the fixed ones, if there may be any. -/
  variadic : Option ParamSpec
  /-- Whether operands are passed without being evaluated. -/
  isLazy : Bool
  /-- Whether the function acts on the scope that it is called from. -/
  wantsScope : Bool
deriving DecidableEq, Repr

namespace Signature

/-- The signature with the given parameters. It is lazy if any of them is a program. -/
def ofParams (parameters : List ParamSpec) (variadic : Option ParamSpec) (wantsScope : Bool) :
    Signature where
  parameters := some parameters
  variadic := variadic
  isLazy := (parameters ++ variadic.toList).any ParamSpec.isProgram
  wantsScope := wantsScope

/-- The signature with the given parameters, which are programs either all or not at all. -/
def infer (parameters : List ParamSpec) (variadic : Option ParamSpec) (wantsScope : Bool) :
    Except Error Signature :=
  let specs := parameters ++ variadic.toList
  let programs := specs.countP ParamSpec.isProgram
  if programs ≠ 0 ∧ programs ≠ specs.length then .error (.mixedParameters programs specs.length)
  else .ok (ofParams parameters variadic wantsScope)

/-- Any number of operands, each passed on as its payload. -/
def passThrough : Signature where
  parameters := none
  variadic := none
  isLazy := false
  wantsScope := false

/-- So many evaluated arguments of any kind. -/
def untyped (count : Nat) : Signature where
  parameters := some (List.replicate count .any)
  variadic := none
  isLazy := false
  wantsScope := false

/-- So many arguments that are not evaluated. -/
def unevaluated (count : Nat) (wantsScope : Bool) : Signature where
  parameters := some (List.replicate count .program)
  variadic := none
  isLazy := true
  wantsScope := wantsScope

/-- The number of arguments; none if any number will do. -/
def arity? (s : Signature) : Option Arity :=
  s.parameters.map fun fixed =>
    if s.variadic.isSome then .atLeast fixed.length else .exactly fixed.length

variable {E : Type}

/-- Check operands from `position` on against the parameters that are left. -/
def adaptFrom (variadic : Option ParamSpec) :
    (position : Nat) → List ParamSpec → List (Operand E) → Except Error (List (Operand E))
  | _, _, [] => .ok []
  | position, spec :: specs, operand :: operands => do
    let first ← spec.adapt operand position
    let rest ← adaptFrom variadic (position + 1) specs operands
    return first :: rest
  | position, [], operand :: operands => do
    let first ← (variadic.getD .any).adapt operand position
    let rest ← adaptFrom variadic (position + 1) [] operands
    return first :: rest

/-- Check operands against the signature and bring them into the form that the function asks for. -/
def adapt (s : Signature) (operands : List (Operand E)) : Except Error (List (Operand E)) :=
  match s.parameters, s.arity? with
  | some fixed, some arity =>
    if arity.accepts operands.length then adaptFrom s.variadic 1 fixed operands
    else .error (.arityMismatch arity operands.length)
  | _, _ => .ok (operands.map Operand.flatten)

end Signature

end FlatLisp
