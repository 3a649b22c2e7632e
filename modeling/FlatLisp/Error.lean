import FlatLisp.Program.Parse
import FlatLisp.Binary64.Text

/-!
# Errors

Every way in which evaluation can fail, as a cause. The wording of all of them is in
`Error.message`: the name of the kind, a colon, and what is wrong.
-/

namespace FlatLisp

/-- How many arguments a function takes. -/
inductive Arity where
  | exactly (n : Nat)
  | atLeast (n : Nat)
deriving DecidableEq, Repr

namespace Arity

/-- Whether `count` arguments are right. -/
def accepts : Arity → Nat → Bool
  | exactly n, count => count == n
  | atLeast n, count => n ≤ count

/-- The count in words. -/
def render : Arity → String
  | exactly n => s!"exactly {n}"
  | atLeast n => s!"at least {n}"

end Arity

/-- What is wrong with a list of formal parameters. -/
inductive FormalsFault where
  | notAList (form : Program)
  | notASymbol (form : Program)
  | invalidName (token : Token)
  | repeated (token : Token)
deriving DecidableEq, Repr

namespace FormalsFault

/-- The wording of a fault. -/
def message : FormalsFault → String
  | notAList form => "'" ++ form.render ++ "' is not a parenthesized parameter list"
  | notASymbol form => "'" ++ form.render ++ "' is not a single symbol"
  | invalidName token => "'" ++ token.text ++ "' is not a valid symbol"
  | repeated token => "'" ++ token.text ++ "' appears more than once"

end FormalsFault

/-- An operation that has no result for its arguments. -/
inductive DomainFault where
  /-- The exact result is no 64-bit integer. -/
  | overflow (operation : String)
  | zeroDivisor
  | zeroToNegative
  /-- The operation needs an order, which complex numbers lack. -/
  | complexOperand (operation : String)
  | complexRounding
  /-- A function of the reals is not defined there, or its result is too large. -/
  | undefinedPoint
  | notAnInteger (x : Float)
  | unreadableFloat (text : String)
  | unreadableInteger (text : String)
  /-- The session of the scope that a closure was defined in has ended. -/
  | lostScope
  /-- A failure reported by a function of the embedder. -/
  | reported (text : String)
deriving DecidableEq

namespace DomainFault

/-- The wording of a fault. -/
def message : DomainFault → String
  | overflow operation => s!"integer overflow in {operation}"
  | zeroDivisor => "The divisor cannot be zero."
  | zeroToNegative => "0 cannot be raised to a negative power"
  | complexOperand operation => s!"'{operation}' is not supported for complex numbers"
  | complexRounding => "complex numbers cannot be rounded"
  | undefinedPoint => "math domain error"
  | notAnInteger x => "cannot convert " ++ Binary64.Layout.inline.render x ++ " to an integer"
  | unreadableFloat text => s!"could not convert '{text}' to a float"
  | unreadableInteger text => s!"could not convert '{text}' to an integer"
  | lostScope => "the scope this closure was defined in no longer exists"
  | reported text => text

end DomainFault

/-- Why the text of a source cannot be had. -/
inductive SourceFault where
  /-- The path is not one token. -/
  | notASingleToken
  /-- Sources are refused altogether. -/
  | disabled
  /-- No source is kept in memory under the path. -/
  | unknown
  | noSuchFile
  | isADirectory
  | notADirectory
  | invalidEncoding
  /-- A failure reported by a loader of the embedder. -/
  | reported (text : String)
deriving DecidableEq, Repr

namespace SourceFault

/-- The wording of a fault. -/
def message : SourceFault → String
  | notASingleToken => "expected a single path token"
  | disabled => "source loading is disabled"
  | unknown => "not found"
  | noSuchFile => "No such file or directory (os error 2)"
  | isADirectory => "Is a directory (os error 21)"
  | notADirectory => "Not a directory (os error 20)"
  | invalidEncoding => "stream did not contain valid UTF-8"
  | reported text => text

end SourceFault

/-- A failed evaluation. -/
inductive Error where
  | malformedProgram (report : ParseError)
  | undefinedSymbol (name : String)
  /-- The operator is not a function; `found` describes what it is. -/
  | notCallable (found : String)
  | arityMismatch (expected : Arity) (count : Nat)
  /-- The argument at `position`, counted from one, is of the wrong kind. -/
  | typeMismatch (position : Nat) (expected found : String)
  | invalidFormals (fault : FormalsFault)
  | invalidSymbolName (text : String)
  | domain (fault : DomainFault)
  /-- Evaluation is nested deeper than `limit`. -/
  | stackExhausted (limit : Nat)
  /-- Some but not all of the parameters are unevaluated programs. -/
  | mixedParameters (programs total : Nat)
  | sourceUnavailable (path : String) (fault : SourceFault)
deriving DecidableEq

namespace Error

/-- Whether an error says that the text of a source cannot be had. -/
def IsUnavailable : Error → Prop
  | sourceUnavailable _ _ => True
  | _ => False

/-- The name of the kind of an error. -/
def name : Error → String
  | malformedProgram _ => "MalformedProgram"
  | undefinedSymbol _ => "UndefinedSymbol"
  | notCallable _ => "NotCallable"
  | arityMismatch _ _ => "ArityMismatch"
  | typeMismatch _ _ _ => "TypeMismatch"
  | invalidFormals _ => "InvalidFormalParameterList"
  | invalidSymbolName _ => "InvalidSymbolName"
  | domain _ => "DomainError"
  | stackExhausted _ => "StackExhausted"
  | mixedParameters _ _ => "InvalidSignature"
  | sourceUnavailable _ _ => "SourceUnavailable"

/-- What is wrong, without the name of the kind. -/
def detail : Error → String
  | malformedProgram report => report.render
  | undefinedSymbol symbol => s!"'{symbol}'"
  | notCallable found => s!"operator must be a function, got {found}"
  | arityMismatch expected count => "expected " ++ expected.render ++ s!" arguments, got {count}"
  | typeMismatch position expected found =>
    s!"argument {position} must be {expected}, got {found}"
  | invalidFormals fault => fault.message
  | invalidSymbolName text => s!"'{text}' is not a valid symbol"
  | domain fault => fault.message
  | stackExhausted limit => s!"evaluation depth limit exceeded (max: {limit})"
  | mixedParameters programs total =>
    s!"{programs} of {total} parameters are unevaluated programs; " ++
      "a function is either fully lazy or fully eager"
  | sourceUnavailable path fault => s!"{path}: " ++ fault.message

/-- The text of an error. -/
def message (e : Error) : String :=
  e.name ++ ": " ++ e.detail

end Error

end FlatLisp
