import FlatLisp.Program.Lexer

/-!
# Checked programs

`Program.validate` accepts exactly the programs whose parentheses match and says of any other what
is wrong, where, and between which neighbours.
-/

namespace FlatLisp

/-- What is wrong with a program that cannot be evaluated. -/
inductive ParseErrorKind where
  /-- The program ends inside a combination. -/
  | incomplete
  /-- A `)` closes nothing. -/
  | unexpectedClose
  /-- A parenthesis stands where a form is needed. -/
  | bareParenthesis
deriving DecidableEq, Repr

/-- The report on a malformed program. -/
structure ParseError where
  kind : ParseErrorKind
  message : String
  /-- The tokens around the fault. -/
  context : Option String := none
deriving DecidableEq, Repr

namespace ParseError

/-- The number of tokens that a context shows at most. -/
def window : Nat := 8

/-- The last `window` tokens up to and including position `index`, with a mark at each end where
the program goes on. -/
def contextAt (p : Program) (index : Nat) : String :=
  let stop := min (index + 1) p.length
  let start := stop - window
  let shown := " ".intercalate (((p.take stop).drop start).map Token.text)
  (if 0 < start then "[...] " else "") ++ shown ++ (if stop < p.length then " [...]" else "")

/-- The token at position `index` closes nothing. -/
def unexpectedClose (p : Program) (index : Nat) : ParseError where
  kind := .unexpectedClose
  message := s!"unexpected ')' at token {index + 1}"
  context := some (contextAt p index)

/-- The program ends with `missing` parentheses open. -/
def incomplete (p : Program) (missing : Nat) : ParseError where
  kind := .incomplete
  message := s!"missing {missing} closing parenthes" ++ (if missing = 1 then "is" else "es")
  context := some (contextAt p (p.length - 1))

/-- The parenthesis `token` stands alone. -/
def bareParenthesis (token : Token) : ParseError where
  kind := .bareParenthesis
  message := "bare '" ++ token.text ++ "' cannot be evaluated"

/-- The report as it is shown: the message, and the context on a line of its own. -/
def render (e : ParseError) : String :=
  match e.context with
  | none => e.message
  | some context => e.message ++ "\nContext: " ++ context

end ParseError

namespace Program

/-- The position of the first `)` that closes nothing, when `depth` parentheses are open in front
of the tokens. -/
def strayClose? : (depth : Nat) → List Token → Option Nat
  | _, [] => none
  | depth, .left :: ts => (strayClose? (depth + 1) ts).map (· + 1)
  | 0, .right :: _ => some 0
  | depth + 1, .right :: ts => (strayClose? depth ts).map (· + 1)
  | depth, .word _ :: ts => (strayClose? depth ts).map (· + 1)

/-- Require matching parentheses and report the first that has no partner. -/
def validate (p : Program) : Except ParseError Unit :=
  match strayClose? 0 p, p.missingRight with
  | some index, _ => .error (.unexpectedClose p index)
  | none, some (missing + 1) => .error (.incomplete p (missing + 1))
  | none, _ => .ok ()

/-- The program written in `text`, if its parentheses match. -/
def parse (comments : Bool) (text : String) : Except ParseError Program := do
  let p := tokenize comments text
  p.validate
  return p

end FlatLisp.Program
