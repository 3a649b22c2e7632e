import FlatLisp.Call.Parameter
import FlatLisp.Value.Literal

/-!
# Special forms

The special forms are functions whose operands are not evaluated. Most of them act on the scope that
they are called from.
-/

namespace FlatLisp

/-- The name that a form spells, if it is a single token that can be bound. -/
def symbolName? : Program → Option String
  | [token] => if isValidSymbol token.text then some token.text else none
  | _ => none

/-- Check the parts of a list of formals in turn; `names` are those already accepted, last first. -/
def collectFormals : (names : List String) → List Program → Except FormalsFault (List String)
  | names, [] => .ok names.reverse
  | names, [.word name] :: parts =>
    if !isValidSymbol name then .error (.invalidName (.word name))
    else if names.contains name then .error (.repeated (.word name))
    else collectFormals (name :: names) parts
  | _, [token] :: _ => .error (.invalidName token)
  | _, part :: _ => .error (.notASymbol part)

/-- The names in a list of formals such as `(x y)`: each can be bound, and none occurs twice. -/
def parameterList (form : Program) : Except FormalsFault (List String) :=
  if form.isCombination then collectFormals [] form.split else .error (.notAList form)

namespace Form

variable {E : Type}

/-- The text of a function made by a form, from which it can be made again. -/
def source (keyword : String) (parameters body : Program) : String :=
  "(" ++ keyword ++ " " ++ parameters.render ++ " " ++ body.render ++ ")"

/-- Check the formals and make a function of them and a body. -/
def makeFunction (keyword : String) (parameters body : Program)
    (make : List String → Body E) : EvalM E (Value E) := do
  let formals ← EvalM.ofExcept ((parameterList parameters).mapError .invalidFormals)
  let id ← EvalM.newId
  return .function ⟨id, some (source keyword parameters body), make formals⟩

/-- Load the source at a path and parse it as the session of the scope does. -/
def loadSource (s : ScopeId) (path : String) : EvalM E Program := do
  let session ← EvalM.session s
  let text ← EvalM.load session.loader path
  EvalM.ofExcept ((Program.parse session.comments text).mapError .malformedProgram)

/-- What a special form does. -/
def typed : Form → Typed E
  | define =>
    { params := [.program, .program], rest := none, wantsScope := true
      run := fun caller (name, form, _) =>
        match symbolName? name with
        | none => throw (.invalidSymbolName name.render)
        | some symbol => do
          let v ← caller.evaluate caller.scope form
          EvalM.bind caller.scope symbol v
          return v }
  | branch =>
    { params := [.program, .program, .program], rest := none, wantsScope := true
      run := fun caller (predicate, consequent, alternative, _) => do
        let v ← caller.evaluate caller.scope predicate
        caller.evaluate caller.scope (if v.isTruthy then consequent else alternative) }
  | lambda =>
    { params := [.program, .program], rest := none, wantsScope := true
      run := fun caller (parameters, body, _) =>
        makeFunction "lambda" parameters body fun formals => .closure formals body caller.scope }
  | template =>
    { params := [.program, .program], rest := none, wantsScope := false
      run := fun _ (parameters, body, _) =>
        makeFunction "macro" parameters body fun formals => .template formals body }
  | load =>
    { params := [.program], rest := none, wantsScope := true
      run := fun caller (path, _) =>
        match path with
        | [token] => do
          let program ← loadSource caller.scope token.text
          caller.evaluate caller.scope program
        | _ => throw (.sourceUnavailable path.render .notASingleToken) }
  | symbols =>
    { params := [], rest := none, wantsScope := true
      run := fun caller _ => do
        let entries ← EvalM.bindings caller.scope
        return .object (Object.ofBindings (← EvalM.newId) entries) }

end Form

end FlatLisp
