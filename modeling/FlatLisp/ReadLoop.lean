import FlatLisp.Session
import FlatLisp.Text.Cluster

/-!
# The read loop

The loop reads lines and evaluates them in one session that handles comments. A line that leaves
parentheses open waits for more; an empty line then closes all of them, and an interrupt discards
what waits. What the loop does about an input (`react`) depends on the pending text and the input
alone. Everything that it shows goes to the printed text of the world.
-/

namespace FlatLisp.ReadLoop

open FlatLisp.Text

/-- What comes from the terminal at a prompt. -/
inductive Input where
  | line (text : String)
  /-- Ctrl+C. -/
  | interrupt
deriving DecidableEq, Repr

/-- What the loop does about an input. -/
inductive Reaction where
  /-- Nothing: the line is blank. -/
  | skip
  | help
  | environment
  | quit
  /-- Wait for more, with this text pending. -/
  | wait (pending : String)
  /-- Evaluate this text. -/
  | submit (source : String)
  /-- Let go of the pending text. -/
  | discard
deriving DecidableEq, Repr

/-- How many parentheses the pending text leaves open, if it closes no more than it opens. -/
def missing (pending : String) : Option Nat :=
  (Program.tokenize true pending).missingRight

/-- Whether a line has nothing but blanks. -/
def isBlankLine (line : String) : Bool :=
  line.toList.all isBlank

/-- A run of closing parentheses. -/
def closing (count : Nat) : String :=
  String.ofList (List.replicate count ')')

/-- Add a line to the pending text, and decide whether to submit it. A blank line behind other lines
closes what is open. -/
def extend (pending line : String) : Reaction :=
  let text := pending ++ line ++ "\n"
  match missing text with
  | some (count + 1) =>
    if pending ≠ "" ∧ isBlankLine line then .submit (text ++ closing (count + 1)) else .wait text
  | _ => .submit text

/-- The command that a line is, when nothing is pending. -/
def command? (line : String) : Option Reaction :=
  match String.ofList (trim line.toList) with
  | "" => some .skip
  | ":help" => some .help
  | ":env" => some .environment
  | ":quit" => some .quit
  | ":exit" => some .quit
  | _ => none

/-- What the loop does about an input when `pending` is the text that waits to be completed. -/
def react (pending : String) : Input → Reaction
  | .line line =>
    if pending = "" then (command? line).getD (extend pending line) else extend pending line
  | .interrupt => .discard

/-- The prompt that asks for the next line. -/
def prompt (pending : String) : String :=
  match missing pending with
  | some (count + 1) => "........> " ++ "".intercalate (List.replicate (count + 1) "  ")
  | _ => "sexpeval> "

/-- What the loop shows when it starts. -/
def banner : String :=
  "sexpeval - a small s-expression interpreter\n" ++
  "Enter expressions like: (+ 1 2)\n" ++
  "Unclosed parentheses continue on the next line; an empty line closes them.\n" ++
  "Type :help for more commands, or Ctrl+D to exit.\n\n"

/-- What the loop shows when it ends. -/
def farewell : String := "Goodbye!\n"

/-- What `:help` shows. -/
def helpText : String :=
  "Commands:\n" ++
  "  :help      - Show this help message\n" ++
  "  :env       - Show current environment bindings\n" ++
  "  :quit      - Exit the interpreter\n" ++
  "  :exit      - Exit the interpreter\n" ++
  "  Ctrl+C     - Discard the pending input\n" ++
  "  Ctrl+D     - Exit the interpreter\n\n" ++
  "Language:\n" ++
  "  Numbers: 42, -5, 3.5, 1e3, 2j\n" ++
  "  Booleans: true, false\n" ++
  "  Arithmetic: +, -, *, /, //, %, ^, max, min\n" ++
  "  Comparison: =, !=, <, >, <=, >=\n" ++
  "  Logic: and, or, not\n" ++
  "  Forms: define/def, if, lambda/lam, macro/mac, from, symbols/syms\n" ++
  "  Host: abs, round, float, int, math:sqrt, math:floor, ...\n" ++
  "  _ holds the last result; ; starts a comment\n\n" ++
  "Examples:\n" ++
  "  (define square (lambda (x) (* x x)))\n" ++
  "  (square 12)\n" ++
  "  (define twice (macro (e) (+ e e)))\n" ++
  "  (twice _)\n\n"

/-- A name in a column of fifteen characters. -/
def column (name : String) : String :=
  "  " ++ name ++ String.ofList (List.replicate (15 - name.length) ' ')

/-- Names in rows of four columns; `filled` columns of the current row are written. -/
def rows : (filled : Nat) → List String → String
  | 0, [] => ""
  | _, [] => "\n"
  | filled, name :: names =>
    (if filled = 4 then "\n" else "") ++ column name ++
      rows (if filled = 4 then 1 else filled + 1) names

variable {E : Type}

/-- The bindings of a scope: functions by name, and the other values one to a line. -/
def environmentText (bindings : List (String × Value E)) : String :=
  let isFunction (entry : String × Value E) : Bool := entry.2.kind == .function
  let functions := (bindings.filter isFunction).map (·.1)
  let values := bindings.filter fun entry => !isFunction entry
  let functionPart :=
    if functions.isEmpty then "" else s!"Functions ({functions.length}):\n" ++ rows 0 functions ++ "\n"
  let valuePart :=
    if values.isEmpty then "No user-defined values.\n"
    else s!"Values ({values.length}):\n" ++
      "".intercalate (values.map fun entry => "  " ++ entry.1 ++ " = " ++ entry.2.render ++ "\n")
  functionPart ++ valuePart

/-- The outcome of a computation that may fail, as a value. -/
def attempt {α : Type} (act : EvalM E α) : EvalM E (Except Error α) :=
  fun w =>
    let (result, w) := act w
    (.ok result, w)

/-- The line that reports an error. -/
def errorLine (e : Error) : String :=
  "Error: " ++ e.message ++ "\n"

/-- Evaluate a text, show its value unless that is empty, and bind it to `_`. -/
def submit [Embedding E] (root : ScopeId) (source : String) : EvalM E Unit := do
  match ← attempt (interpret root source) with
  | .ok v =>
    if v.kind != .empty then EvalM.print (v.render ++ "\n")
    EvalM.bind root "_" v
  | .error e => EvalM.print (errorLine e)

/-- Load the source named on the command line. -/
def loadAtStart [Embedding E] (root : ScopeId) (path : String) : EvalM E Unit := do
  match ← attempt (interpret root ("(from " ++ path ++ ")")) with
  | .ok _ => EvalM.print ("Loaded " ++ path ++ "\n")
  | .error e => EvalM.print (errorLine e)

/-- Greet, start the session, and load the source named on the command line. The result is the root
scope. -/
def start [Embedding E] (loader : Loader) (path : Option String) : EvalM E ScopeId := do
  EvalM.print banner
  let root ← openRoot (← Registry.standard).host loader true defaultMaxDepth
  match path with
  | none => return root
  | some path => do
    loadAtStart root path
    return root

/-- Take one input. The result is the text that is pending now, or nothing if the loop is to end. -/
def turn [Embedding E] (root : ScopeId) (pending : String) (input : Input) :
    EvalM E (Option String) := do
  match react pending input with
  | .skip => return some pending
  | .help => do
    EvalM.print helpText
    return some pending
  | .environment => do
    EvalM.print (environmentText (← EvalM.bindings root))
    return some pending
  | .quit => do
    EvalM.print farewell
    return none
  | .wait text => return some text
  | .submit source => do
    submit root source
    return some ""
  | .discard => return some ""

/-- Ask for input and take it until there is no more or a line ends the loop. -/
def run [Embedding E] (root : ScopeId) : (pending : String) → List Input → EvalM E Unit
  | pending, [] => EvalM.print (prompt pending ++ farewell)
  | pending, input :: inputs => do
    EvalM.print (prompt pending)
    match ← turn root pending input with
    | some pending => run root pending inputs
    | none => return ()

/-- Take bytes off the end of a text, which is given last character first. -/
def dropBytes : (bytes : Nat) → List Char → List Char
  | _, [] => []
  | bytes, c :: cs =>
    if bytes = 0 then c :: cs
    else dropBytes (bytes - c.utf8Size) cs

/-- The bytes of a cluster, counted in a byte. -/
def clusterSize (cluster : List Char) : Nat :=
  cluster.foldl (fun size c => size + c.utf8Size) 0 % 256

/-- Take back what is erased: a backspace erases the cluster in front of it. `kept` holds the
characters so far, last first, and `sizes` the sizes of their clusters. -/
def erase : (sizes : List Nat) → (kept : List Char) → List (List Char) → List Char
  | _, kept, [] => kept.reverse
  | [], kept, ['\x08'] :: clusters => erase [] kept clusters
  | size :: sizes, kept, ['\x08'] :: clusters => erase sizes (dropBytes size kept) clusters
  | sizes, kept, cluster :: clusters =>
    erase (clusterSize cluster :: sizes) (cluster.reverse ++ kept) clusters

/-- A line as it is taken from the terminal, without the carriage return at its end and what was
erased. -/
def cleanLine (line : String) : String :=
  let cs := line.toList
  String.ofList (erase [] [] (clusters (if cs.getLast? = some '\r' then cs.dropLast else cs)))

/-- Everything that the loop shows for the given lines. -/
def transcript [Embedding E] (loader : Loader) (path : Option String) (lines : List String) : String :=
  let session : EvalM E Unit := do
    let root ← start loader path
    run root "" (lines.map fun line => .line (cleanLine line))
  (session World.empty).2.printed

end FlatLisp.ReadLoop
