import FlatLisp.World.Source
import FlatLisp.Value.Foreign

/-!
# Worlds

A world holds everything that evaluation can change: the scopes of all sessions, how deep each
session is nested, the text printed so far, the sources asked for, and the numbers already given to
functions and objects.
A scope binds names and has a parent, except for the root of its session. Names are looked up
through the parents and bound in the scope itself. Scopes are never taken away, so the place of a
scope in the world names it for good, and a parent stands in front of its children.
-/

namespace FlatLisp

/-- Bindings of names, each name at most once. -/
abbrev Table (V : Type) := List (String × V)

namespace Table

variable {V : Type}

/-- The value bound to a name. -/
def find? (t : Table V) (name : String) : Option V :=
  t.lookup name

/-- Bind a name, in place of any binding it had. -/
def insert (t : Table V) (name : String) (v : V) : Table V :=
  (name, v) :: t.filter fun entry => entry.1 != name

@[simp] theorem find?_insert_self (t : Table V) (name : String) (v : V) :
    (t.insert name v).find? name = some v := by
  simp [find?, insert]

end Table

/-- One scope. -/
structure Scope (E : Type) where
  table : Table (Value E)
  parent : Option ScopeId
  /-- The session that the scope belongs to. -/
  session : Nat

/-- Where a session looks for a function if no scope binds its name. A host is a part of the
embedder: for each path it has a function, at all times the same, or none. -/
structure Host (E : Type) where
  resolve? : String → Option (Function E)

/-- A host without functions. -/
def Host.empty {E : Type} : Host E :=
  ⟨fun _ => none⟩

/-- Host functions by namespace and name. -/
abbrev Registry (E : Type) := List ((String × String) × Function E)

namespace Registry

variable {E : Type}

/-- The namespace and the name of a path, divided at its first colon. A path without one is a name
in the nameless namespace. -/
def splitPath (path : String) : String × String :=
  match path.toList.dropWhile (· != ':') with
  | [] => ("", path)
  | _ :: rest => (String.ofList (path.toList.takeWhile (· != ':')), String.ofList rest)

/-- Put a function under a path, in place of any that is there. -/
def insert (r : Registry E) (path : String) (f : Function E) : Registry E :=
  (splitPath path, f) :: r.filter fun entry => entry.1 != splitPath path

/-- The function under a path. -/
def resolve? (r : Registry E) (path : String) : Option (Function E) :=
  r.lookup (splitPath path)

/-- The host that has the functions of a registry. -/
def host (r : Registry E) : Host E :=
  ⟨r.resolve?⟩

end Registry

/-- What is fixed for a session when it starts, and how deep its evaluation is nested. -/
structure Session (E : Type) where
  host : Host E
  loader : Loader
  /-- Whether `;` opens a comment. -/
  comments : Bool
  /-- How many evaluations may be nested. -/
  maxDepth : Nat
  depth : Nat
  /-- Whether nothing refers to the session any more. -/
  ended : Bool

/-- The state of all sessions. -/
structure World (E : Type) where
  scopes : Array (Scope E)
  sessions : Array (Session E)
  /-- The first number that no function or object has. -/
  nextId : Nat
  printed : String
  /-- The paths that sources were asked for, the latest first. -/
  requested : List String

namespace World

variable {E : Type}

/-- A world without sessions. -/
def empty : World E := ⟨#[], #[], 0, "", []⟩

/-- The session that a scope belongs to. -/
def sessionOf? (w : World E) (s : ScopeId) : Option (Session E) :=
  (w.scopes[s]?).bind fun scope => w.sessions[scope.session]?

/-- The tables in sight from a scope, its own first. A chain of parents is never longer than `fuel`
if `fuel` scopes exist. -/
def chain (w : World E) : (fuel : Nat) → ScopeId → List (Table (Value E))
  | 0, _ => []
  | fuel + 1, s =>
    match w.scopes[s]? with
    | none => []
    | some scope =>
      match scope.parent with
      | none => [scope.table]
      | some parent => scope.table :: w.chain fuel parent

/-- The tables in sight from a scope, its own first. -/
def visible (w : World E) (s : ScopeId) : List (Table (Value E)) :=
  w.chain w.scopes.size s

/-- The value bound to a name in the nearest scope that binds it. -/
def find? (w : World E) (s : ScopeId) (name : String) : Option (Value E) :=
  (w.visible s).findSome? fun table => table.find? name

/-- Whether a name is bound in the scope itself. -/
def hasLocal (w : World E) (s : ScopeId) (name : String) : Bool :=
  match w.scopes[s]? with
  | none => false
  | some scope => (scope.table.find? name).isSome

/-- Bind a name in a scope. -/
def bind (w : World E) (s : ScopeId) (name : String) (v : Value E) : World E :=
  { w with scopes := w.scopes.modify s fun scope => { scope with table := scope.table.insert name v } }

/-- Insert into a list that is sorted by name, unless the name is there already. -/
def insertNew (entry : String × Value E) : List (String × Value E) → List (String × Value E)
  | [] => [entry]
  | head :: rest =>
    if entry.1 < head.1 then entry :: head :: rest
    else if entry.1 = head.1 then head :: rest
    else head :: insertNew entry rest

/-- Every binding in sight from a scope, sorted by name. A binding hides those of the same name
further out. -/
def bindings (w : World E) (s : ScopeId) : List (String × Value E) :=
  (w.visible s).flatten.foldl (fun sorted entry => insertNew entry sorted) []

/-- A new scope without bindings. -/
def pushScope (w : World E) (scope : Scope E) : World E × ScopeId :=
  let s := w.scopes.size
  ({ w with scopes := w.scopes.push scope }, s)

/-- Set how deep a session is nested. -/
def setDepth (w : World E) (session depth : Nat) : World E :=
  { w with sessions := w.sessions.modify session fun s => { s with depth := depth } }

/-- How many evaluations can still be nested, over all sessions. -/
def budget (w : World E) : Nat :=
  w.sessions.foldr (fun s rest => s.maxDepth - s.depth + rest) 0

end World

/-- Evaluation changes the world, and what it has changed when it fails stays changed. -/
abbrev EvalM (E : Type) := ExceptT Error (StateM (World E))

namespace EvalM

variable {E : Type}

/-- A computation that does not depend on the world. -/
def ofExcept {α : Type} (result : Except Error α) : EvalM E α :=
  fun w => (result, w)

/-- A number that no function or object has. -/
def newId : EvalM E Nat :=
  fun w => (.ok w.nextId, { w with nextId := w.nextId + 1 })

/-- Write text to the output. -/
def print (text : String) : EvalM E Unit :=
  fun w => (.ok (), { w with printed := w.printed ++ text })

/-- Bind a name in a scope. -/
def bind (s : ScopeId) (name : String) (v : Value E) : EvalM E Unit :=
  fun w => (.ok (), w.bind s name v)

/-- A new scope without bindings below `parent`. -/
def child (parent : ScopeId) : EvalM E ScopeId :=
  fun w =>
    match w.scopes[parent]? with
    | none => (.error (.domain .lostScope), w)
    | some scope =>
      let (w, s) := w.pushScope ⟨[], some parent, scope.session⟩
      (.ok s, w)

/-- The session of a scope, as long as it has not ended. -/
def session (s : ScopeId) : EvalM E (Session E) :=
  fun w =>
    match w.sessionOf? s with
    | none => (.error (.domain .lostScope), w)
    | some session => if session.ended then (.error (.domain .lostScope), w) else (.ok session, w)

/-- The text that the loader of a session has for a path. -/
def load (loader : Loader) (path : String) : EvalM E String :=
  fun w => (loader.load path, { w with requested := path :: w.requested })

/-- Look a name up from a scope, at last among the host functions of its session. -/
def lookup (s : ScopeId) (name : String) : EvalM E (Value E) :=
  fun w =>
    match w.find? s name with
    | some v => (.ok v, w)
    | none =>
      match (w.sessionOf? s).bind fun session => session.host.resolve? name with
      | some f => (.ok (.function f), w)
      | none => (.error (.undefinedSymbol name), w)

/-- Every binding in sight from a scope. -/
def bindings (s : ScopeId) : EvalM E (List (String × Value E)) :=
  fun w => (.ok (w.bindings s), w)

/-- Run one evaluation deeper in the session of a scope, if its limit allows that. However it ends,
the session is as deep as before. -/
def nested {α : Type} (s : ScopeId) (act : EvalM E α) : EvalM E α :=
  fun w =>
    match w.scopes[s]? with
    | none => (.error (.domain .lostScope), w)
    | some scope =>
      match w.sessions[scope.session]? with
      | none => (.error (.domain .lostScope), w)
      | some session =>
        if session.depth < session.maxDepth then
          let (result, w) := act (w.setDepth scope.session (session.depth + 1))
          (result, w.setDepth scope.session session.depth)
        else (.error (.stackExhausted session.maxDepth), w)

end EvalM

end FlatLisp
