import FlatLisp.Call.Basic

/-!
# Evaluation

An empty program has the empty value. A combination is a call: its first form yields the function,
and a symbol that it yields is looked up once more. A single word is a literal or a symbol. Anything
else is a sequence of forms, evaluated in turn.

`step` describes one evaluation in terms of the evaluations nested in it, and `evaluateWithin` ties
the knot with a bound on the nesting. The depth limits of the sessions of a world are such a bound,
so `evaluate` needs no other.
-/

namespace FlatLisp

variable {E : Type} [Embedding E]

/-- Evaluate forms from left to right. -/
def evaluateAll (evaluate : ScopeId → Program → EvalM E (Value E)) (s : ScopeId) :
    List Program → EvalM E (List (Operand E))
  | [] => return []
  | form :: forms => do
    let v ← evaluate s form
    let rest ← evaluateAll evaluate s forms
    return .value v :: rest

/-- Evaluate forms from left to right for the value of the last; `v` is the value so far. -/
def evaluateSequence (evaluate : ScopeId → Program → EvalM E (Value E)) (s : ScopeId) :
    Value E → List Program → EvalM E (Value E)
  | v, [] => return v
  | _, form :: forms => do
    let v ← evaluate s form
    evaluateSequence evaluate s v forms

/-- A name that an operator form yields stands for what it is bound to. -/
def resolveOperator (s : ScopeId) : Value E → EvalM E (Value E)
  | .symbol name => EvalM.lookup s name
  | v => return v

/-- Evaluate a combination, given its forms. -/
def evaluateCombination (evaluate : ScopeId → Program → EvalM E (Value E)) (s : ScopeId) :
    List Program → EvalM E (Value E)
  | [] => throw (.notCallable "an empty combination")
  | operator :: operands => do
    match ← resolveOperator s (← evaluate s operator) with
    | .function f =>
      let arguments ←
        if f.signature.isLazy then pure (operands.map Operand.program)
        else evaluateAll evaluate s operands
      f.callWithin evaluate s (Embedding.directCalls E + 1) arguments
    | v => throw (.notCallable (v.render ++ " (" ++ v.kind.name ++ ")"))

/-- Evaluate a single token. -/
def evaluateToken (s : ScopeId) : Token → EvalM E (Value E)
  | .word word =>
    match Value.literal? word with
    | some v => return v
    | none => EvalM.lookup s word
  | token => throw (.malformedProgram (.bareParenthesis token))

/-- One evaluation, in terms of the evaluations nested in it. -/
def step (evaluate : ScopeId → Program → EvalM E (Value E)) (s : ScopeId) (p : Program) :
    EvalM E (Value E) :=
  match p with
  | [] => return .empty
  | [token] => evaluateToken s token
  | p =>
    if p.isCombination then evaluateCombination evaluate s p.split
    else do
      EvalM.ofExcept (p.validate.mapError .malformedProgram)
      evaluateSequence evaluate s .empty p.split

/-- Evaluate a program in a scope with at most `fuel` evaluations nested. Fuel that covers the depth
limits is never used up: where it ends, the session allows no further nesting either. -/
def evaluateWithin : (fuel : Nat) → ScopeId → Program → EvalM E (Value E)
  | 0, s, _ => EvalM.nested s (throw (.stackExhausted 0))
  | fuel + 1, s, p => EvalM.nested s (step (evaluateWithin fuel) s p)

/-- Evaluate a program in a scope. -/
def evaluate (s : ScopeId) (p : Program) : EvalM E (Value E) :=
  fun w => evaluateWithin w.budget s p w

/-- Call a function from a scope. -/
def Function.call (f : Function E) (s : ScopeId) (operands : List (Operand E)) : EvalM E (Value E) :=
  fun w => f.callWithin (evaluateWithin w.budget) s (Embedding.directCalls E + 1) operands w

/-- Parse text as the session of a scope does, and evaluate it in the scope. -/
def interpret (s : ScopeId) (text : String) : EvalM E (Value E) := do
  let session ← EvalM.session s
  let p ← EvalM.ofExcept ((Program.parse session.comments text).mapError .malformedProgram)
  evaluate s p

end FlatLisp
