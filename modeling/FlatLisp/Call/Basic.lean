import FlatLisp.Call.Builtin
import FlatLisp.Call.Form
import FlatLisp.Call.Host

/-!
# Calls

Calling a function adapts the operands to its signature and then runs its body. A closure runs in a
new child of the scope that it was defined in, a template in the scope that it is called from.
-/

namespace FlatLisp

variable {E : Type}

/-- The calling convention that a body asks for. -/
def Body.signature [Embedding E] : Body E → Signature
  | .closure formals _ _ => .untyped formals.length
  | .template formals _ => .unevaluated formals.length true
  | .form f => (f.typed : Typed E).signature
  | .builtin b => (b.typed : Typed E).signature
  | .host _ => .passThrough
  | .embedded e => (Embedding.native e).signature

/-- The calling convention of a function. -/
def Function.signature [Embedding E] (f : Function E) : Signature :=
  f.body.signature

/-- Bind names in a scope one after the other. -/
def bindAll (s : ScopeId) : List (String × Value E) → EvalM E Unit
  | [] => return ()
  | (name, v) :: rest => do
    EvalM.bind s name v
    bindAll s rest

/-- Run a body on adapted operands. -/
def Body.run [Embedding E] (caller : Caller E) (operands : List (Operand E)) :
    Body E → EvalM E (Value E)
  | .closure formals program scope => do
    let _ ← EvalM.session scope
    let inner ← EvalM.child scope
    let values ← Args.readRest .value 1 operands
    bindAll inner (formals.zip values)
    caller.evaluate inner program
  | .template formals program => do
    let programs ← Args.readRest .program 1 operands
    caller.evaluate caller.scope
      (program.substitute ((formals.map Token.word).zip programs))
  | .form f => f.typed.invoke caller operands
  | .builtin b => b.typed.invoke caller operands
  | .host f => f.native.invoke caller operands
  | .embedded e => (Embedding.native e).invoke caller operands

/-- Adapt operands to the signature of a function and run its body. -/
def Function.apply [Embedding E] (f : Function E) (caller : Caller E) (operands : List (Operand E)) :
    EvalM E (Value E) := do
  let adapted ← EvalM.ofExcept (f.signature.adapt operands)
  f.body.run caller adapted

/-- Call a function from a scope. Forms are evaluated by `evaluate`; `nesting` bounds the calls
that functions of the embedder make directly. -/
def Function.callWithin [Embedding E] (evaluate : ScopeId → Program → EvalM E (Value E)) (s : ScopeId) :
    (nesting : Nat) → Function E → List (Operand E) → EvalM E (Value E)
  | 0, _, _ => throw (.stackExhausted (Embedding.directCalls E))
  | nesting + 1, f, operands => f.apply ⟨s, evaluate, callWithin evaluate s nesting⟩ operands

end FlatLisp
