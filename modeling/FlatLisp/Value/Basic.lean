import FlatLisp.Number.Basic
import FlatLisp.Program.Basic
import FlatLisp.Value.Primitive

/-!
# Values

Evaluation yields one of eight kinds of value. Functions are data: what a function does is described
by its `Body`, and the modules on calls say what running a body means. Functions and objects are
equal only to themselves, so each carries the number that was unused when it was made.

`E` is the type of the functions that an embedder adds. A session that has none uses `Empty`.
-/

namespace FlatLisp

/-- The place of a scope in a world. -/
abbrev ScopeId := Nat

/-- What a function does. -/
inductive Body (E : Type) where
  | form (form : Form)
  | builtin (builtin : Builtin)
  | host (function : HostFunction)
  /-- Evaluate `program` in a new child of `scope` that binds the formals. -/
  | closure (formals : List String) (program : Program) (scope : ScopeId)
  /-- Put the operands in for the formals in `program` and evaluate it in the calling scope. -/
  | template (formals : List String) (program : Program)
  | embedded (function : E)

/-- A callable value. -/
structure Function (E : Type) where
  id : Nat
  /-- The text the function is shown as. -/
  label : Option String
  body : Body E

namespace Function

/-- The text of a function. -/
def render {E : Type} (f : Function E) : String :=
  f.label.getD "#<function>"

end Function

/-- A value of the host that no kind of the language covers, over the type `V` of values. -/
structure ObjectOf (V : Type) where
  id : Nat
  /-- The text the object is shown as. -/
  text : String
  /-- The bindings that a snapshot of symbols holds, sorted by name. -/
  snapshot : Option (List (String × V))

/-- The result of an evaluation. -/
inductive Value (E : Type) where
  | bool (b : Bool)
  | int (n : Int64)
  /-- A float. All NaNs are one value of `Float`, so the sign and the payload bits that a NaN of the
  machine has are lost. -/
  | float (x : Float)
  | complex (c : Complex)
  /-- Text, which serves as string data and as an identifier. -/
  | symbol (text : String)
  /-- The result of what has no result. -/
  | empty
  | function (f : Function E)
  | object (o : ObjectOf (Value E))

/-- A value of the host that no kind of the language covers. -/
abbrev Object (E : Type) := ObjectOf (Value E)

/-- The kinds of value, with two more that parameters can ask for. -/
inductive Kind where
  | bool | int | float | complex
  /-- Any of the three kinds of number. -/
  | number
  | symbol | empty | function | object
  /-- An operand that is not evaluated. -/
  | program
deriving DecidableEq, Repr

namespace Kind

/-- The name of a kind. -/
def name : Kind → String
  | bool => "Bool" | int => "Int" | float => "Float" | complex => "Complex" | number => "Number"
  | symbol => "Symbol" | empty => "Empty" | function => "Function" | object => "Object"
  | program => "Program"

/-- Every kind. -/
def all : List Kind :=
  [.bool, .int, .float, .complex, .number, .symbol, .empty, .function, .object, .program]

/-- The kinds that claim values of the host, in the order in which they are asked. -/
def priority : List Kind :=
  [.bool, .int, .float, .complex, .symbol, .empty, .function]

end Kind

namespace Value

variable {E : Type}

/-- The kind of a value. -/
def kind : Value E → Kind
  | bool _ => .bool
  | int _ => .int
  | float _ => .float
  | complex _ => .complex
  | symbol _ => .symbol
  | empty => .empty
  | function _ => .function
  | object _ => .object

/-- Everything but false counts as true. -/
def isTruthy : Value E → Bool
  | bool false => false
  | _ => true

/-- The text of a symbol. -/
def symbol? : Value E → Option String
  | symbol text => some text
  | _ => none

/-- A number as a value. -/
def ofNumber : Number → Value E
  | .int n => .int n
  | .float x => .float x
  | .complex c => .complex c

/-- The number that a value is. -/
def number? : Value E → Option Number
  | int n => some (.int n)
  | float x => some (.float x)
  | complex c => some (.complex c)
  | _ => none

/-- Equality of the language: the same kind and the same content. Floats compare as numbers, so
what is no number differs from itself; functions and objects are equal only to themselves. -/
def same : Value E → Value E → Bool
  | bool a, bool b => a == b
  | int a, int b => a == b
  | float a, float b => a == b
  | complex a, complex b => a.same b
  | symbol a, symbol b => a == b
  | empty, empty => true
  | function a, function b => a.id == b.id
  | object a, object b => a.id == b.id
  | _, _ => false

/-- The text of a value. -/
def render : Value E → String
  | bool b => if b then "true" else "false"
  | int n => Numeral.render n
  | float x => Binary64.Layout.value.render x
  | complex c => c.render
  | symbol text => text
  | empty => "<empty>"
  | function f => f.render
  | object o => o.text

end Value

/-- Whether a value is of the kind; no value is a program. -/
def Kind.accepts {E : Type} (kind : Kind) (v : Value E) : Bool :=
  match kind with
  | .number => v.number?.isSome
  | kind => v.kind == kind

namespace Object

variable {E : Type}

/-- A host value of which nothing is known. -/
def hidden (id : Nat) : Object E :=
  ⟨id, "<host object>", none⟩

/-- A list of integers of the host. -/
def ofList (id : Nat) (ns : List Int64) : Object E :=
  ⟨id, "[" ++ ", ".intercalate (ns.map Numeral.render) ++ "]", none⟩

/-- A snapshot of bindings, shown one to a line. -/
def ofBindings (id : Nat) (entries : List (String × Value E)) : Object E :=
  ⟨id, "\n".intercalate (entries.map fun entry => entry.1 ++ ": " ++ entry.2.render), some entries⟩

end Object

end FlatLisp
