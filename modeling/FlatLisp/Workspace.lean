import FlatLisp.Session

/-!
# Workspaces

A workspace keeps several sessions side by side, with names for scopes, for interpreters and for
values. A session lives as long as a named scope or an interpreter belongs to it; closures do not
keep it alive.
-/

namespace FlatLisp

/-- The host functions that a session starts with. -/
inductive HostChoice (E : Type) where
  | standard
  /-- No host functions at all. -/
  | sandbox
  | custom (entries : List (String × Option String × Body E))

/-- How a session is set up. -/
structure SessionOptions (E : Type) where
  comments : Bool
  maxDepth : Nat
  host : HostChoice E
  loader : Loader
  /-- Whether the root scope binds nothing. A bare session has no interpreter. -/
  bare : Bool
  /-- Functions of the embedder to bind in the root scope. -/
  embedded : List (String × E)

/-- Sessions with names for what is in them. -/
structure Workspace (E : Type) where
  world : World E
  scopes : Table ScopeId
  /-- The root scopes of the interpreters. -/
  interpreters : Table ScopeId
  kept : Table (Value E)

namespace Workspace

variable {E : Type}

/-- A workspace without sessions. -/
def empty : Workspace E := ⟨.empty, [], [], []⟩

/-- End the sessions that no named scope and no interpreter belongs to. -/
def settle (ws : Workspace E) : Workspace E :=
  let held := (ws.scopes ++ ws.interpreters).filterMap fun entry =>
    (ws.world.scopes[entry.2]?).map Scope.session
  let sessions := ws.world.sessions.mapIdx fun i session =>
    { session with ended := !held.contains i }
  { ws with world := { ws.world with sessions := sessions } }

/-- Run a computation on the world. -/
def run {α : Type} (ws : Workspace E) (act : EvalM E α) : Except Error α × Workspace E :=
  let (result, world) := act ws.world
  (result, { ws with world := world })

/-- Bind functions of the embedder one after the other. -/
def registerAll [Embedding E] (s : ScopeId) : List (String × E) → EvalM E Unit
  | [] => return ()
  | (name, e) :: rest => do
    register s name e
    registerAll s rest

/-- Start a session as its options say. -/
def startSession [Embedding E] (options : SessionOptions E) : EvalM E ScopeId := do
  let registry ← match options.host with
    | .standard => Registry.standard
    | .sandbox => pure []
    | .custom entries => Registry.ofFunctions entries
  let start := if options.bare then openBare else openRoot
  let s ← start registry.host options.loader options.comments options.maxDepth
  registerAll s options.embedded
  return s

/-- Start a session and name its root scope and its interpreter. -/
def openSession [Embedding E] (ws : Workspace E) (name : String) (options : SessionOptions E) :
    Except Error Unit × Workspace E :=
  match ws.run (startSession options) with
  | (.error e, ws) => (.error e, ws)
  | (.ok s, ws) =>
    let interpreters :=
      if options.bare then ws.interpreters else ws.interpreters.insert name s
    (.ok (), { ws with scopes := ws.scopes.insert name s, interpreters := interpreters }.settle)

/-- Name a scope. -/
def nameScope (ws : Workspace E) (name : String) (s : ScopeId) : Workspace E :=
  { ws with scopes := ws.scopes.insert name s }.settle

/-- Keep a value under a name. -/
def keep (ws : Workspace E) (name : String) (v : Value E) : Workspace E :=
  { ws with kept := ws.kept.insert name v }

/-- Let go of the scope and the interpreter of a name. The result says which of them there were. -/
def drop (ws : Workspace E) (name : String) : (Bool × Bool) × Workspace E :=
  let found := ((ws.scopes.find? name).isSome, (ws.interpreters.find? name).isSome)
  let others {V : Type} (t : Table V) : Table V := t.filter fun entry => entry.1 != name
  (found, { ws with scopes := others ws.scopes, interpreters := others ws.interpreters }.settle)

/-- Let go of a value. The result says whether there was one. -/
def forget (ws : Workspace E) (name : String) : Bool × Workspace E :=
  ((ws.kept.find? name).isSome, { ws with kept := ws.kept.filter fun entry => entry.1 != name })

end Workspace

end FlatLisp
