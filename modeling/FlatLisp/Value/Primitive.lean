/-!
# The functions of the language, by name

Three families of functions come with the language: the special forms and the builtin operations,
which a root scope binds, and the standard host functions, which are found by their path when a
symbol is bound nowhere.
-/

namespace FlatLisp

/-- The special forms. -/
inductive Form where
  /-- Bind a name in the calling scope. -/
  | define
  /-- Evaluate one of two forms. -/
  | branch
  /-- Make a closure over the calling scope. -/
  | lambda
  /-- Make a template, which is expanded and then evaluated where it is called. -/
  | template
  /-- Evaluate a source in the calling scope. -/
  | load
  /-- Take a snapshot of the bindings in sight. -/
  | symbols
deriving DecidableEq, Repr

/-- The names that a special form is bound to. -/
def Form.names : Form → List String
  | define => ["define", "def"]
  | branch => ["if"]
  | lambda => ["lambda", "lam"]
  | template => ["macro", "mac"]
  | load => ["from"]
  | symbols => ["symbols", "syms"]

/-- Every special form. -/
def Form.all : List Form :=
  [.define, .branch, .lambda, .template, .load, .symbols]

/-- The builtin operations. -/
inductive Builtin where
  | add | mul | sub | div | floorDiv | modulo | power | max | min
  | less | lessEqual | greater | greaterEqual | equal | notEqual
  | not | and | or
  | print
deriving DecidableEq, Repr

/-- The name that a builtin operation is bound to. -/
def Builtin.name : Builtin → String
  | add => "+" | mul => "*" | sub => "-" | div => "/" | floorDiv => "//" | modulo => "%"
  | power => "^" | max => "max" | min => "min"
  | less => "<" | lessEqual => "<=" | greater => ">" | greaterEqual => ">="
  | equal => "=" | notEqual => "!="
  | not => "not" | and => "and" | or => "or"
  | print => "print"

/-- Every builtin operation. -/
def Builtin.all : List Builtin :=
  [.add, .mul, .sub, .div, .floorDiv, .modulo, .power, .max, .min,
   .less, .lessEqual, .greater, .greaterEqual, .equal, .notEqual, .not, .and, .or, .print]

/-- The builtin operation of a name. -/
def Builtin.ofName? (name : String) : Option Builtin :=
  Builtin.all.find? fun b => b.name == name

/-- The standard host functions. -/
inductive HostFunction where
  | abs | round | float | int
  | sqrt | exp | log | sin | cos | floor | ceil
deriving DecidableEq, Repr

/-- The path of a standard host function. -/
def HostFunction.path : HostFunction → String
  | abs => "abs" | round => "round" | float => "float" | int => "int"
  | sqrt => "math:sqrt" | exp => "math:exp" | log => "math:log" | sin => "math:sin"
  | cos => "math:cos" | floor => "math:floor" | ceil => "math:ceil"

/-- Every standard host function. -/
def HostFunction.all : List HostFunction :=
  [.abs, .round, .float, .int, .sqrt, .exp, .log, .sin, .cos, .floor, .ceil]

/-- The text that stands for a function that a scope binds from outside the language. -/
def builtinLabel (name : String) : String :=
  "#<builtin:" ++ name ++ ">"

/-- The text that stands for a function of the host. -/
def hostLabel (path : String) : String :=
  "#<host:" ++ path ++ ">"

end FlatLisp
