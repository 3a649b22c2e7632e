import FlatLisp.Eval

/-!
# Sessions

A session is a root scope together with its options, its host functions and its source loader. A
bare session binds nothing; an ordinary one binds the special forms and the builtin operations.
-/

namespace FlatLisp

variable {E : Type}

/-- How many evaluations may be nested unless a session says otherwise. -/
def defaultMaxDepth : Nat := 4096

namespace Function

/-- A new function, numbered and shown as `label` says. -/
def make (label : Option String) (body : Body E) : EvalM E (Function E) := do
  return ⟨← EvalM.newId, label, body⟩

end Function

namespace Registry

/-- The registry with the given host functions, each with its path. A later function takes the place
of an earlier one with the same path. -/
def ofFunctions : List (String × Option String × Body E) → EvalM E (Registry E)
  | [] => return []
  | entries => entries.foldlM (fun registry (path, label, body) => do
      return registry.insert path (← Function.make label body)) []

/-- The standard host functions, each shown by its path. -/
def standard : EvalM E (Registry E) :=
  ofFunctions (HostFunction.all.map fun f => (f.path, some (hostLabel f.path), .host f))

end Registry

/-- Bind a new function under each of its names. -/
def installNamed (s : ScopeId) (names : List String) (body : Body E) : EvalM E Unit := do
  let id ← EvalM.newId
  bindAll s (names.map fun name => (name, .function ⟨id, some (builtinLabel name), body⟩))

/-- Bind the special forms. -/
def installForms (s : ScopeId) : List Form → EvalM E Unit
  | [] => return ()
  | form :: forms => do
    installNamed s form.names (.form form)
    installForms s forms

/-- Bind the builtin operations. -/
def installBuiltins (s : ScopeId) : List Builtin → EvalM E Unit
  | [] => return ()
  | b :: bs => do
    installNamed s [b.name] (.builtin b)
    installBuiltins s bs

/-- Start a session that binds nothing. The result is its root scope. -/
def openBare (host : Host E) (loader : Loader) (comments : Bool) (maxDepth : Nat) :
    EvalM E ScopeId :=
  fun w =>
    let session := ⟨host, loader, comments, maxDepth, 0, false⟩
    let (w, s) := w.pushScope ⟨[], none, w.sessions.size⟩
    (.ok s, { w with sessions := w.sessions.push session })

/-- Start a session with the special forms and the builtin operations. The result is its root
scope. -/
def openRoot (host : Host E) (loader : Loader) (comments : Bool) (maxDepth : Nat) :
    EvalM E ScopeId := do
  let s ← openBare host loader comments maxDepth
  installForms s Form.all
  installBuiltins s Builtin.all
  return s

/-- Bind a function of the embedder, if its parameters go together. -/
def register [Embedding E] (s : ScopeId) (name : String) (e : E) : EvalM E Unit := do
  match Embedding.native e with
  | .typed f => do
    let _ ← EvalM.ofExcept f.checkedSignature
    installNamed s [name] (.embedded e)
  | .passThrough _ => installNamed s [name] (.embedded e)

/-- How many `)` would complete a text, as the session of the scope reads it. -/
def missingRight (s : ScopeId) (text : String) : EvalM E (Option Nat) := do
  let session ← EvalM.session s
  return (Program.tokenize session.comments text).missingRight

/-- The parent of a scope, if it is not a root. -/
def World.parent? (w : World E) (s : ScopeId) : Option ScopeId :=
  (w.scopes[s]?).bind Scope.parent

/-- Whether a scope is the root of its session. -/
def World.isRoot (w : World E) (s : ScopeId) : Bool :=
  match w.scopes[s]? with
  | none => false
  | some scope => scope.parent.isNone

end FlatLisp
