import FlatLisp.Text.Blank
import FlatLisp.Value.Basic

/-!
# Literals and names

A word is a literal if it spells a truth value or, provided that it has a digit in it, an integer, a
float or a complex number, tried in that order. Any word with a character that is not a digit can be
a name.
-/

namespace FlatLisp

/-- Whether `name` can be bound: it is not empty, has no blank or parenthesis in it, and does not
consist of digits alone. -/
def isValidSymbol (name : String) : Bool :=
  let cs := name.toList
  !cs.isEmpty && !cs.any (fun c => c == '(' || c == ')') && !cs.any Text.isBlank &&
    cs.any (fun c => !c.isDigit)

namespace Value

variable {E : Type}

/-- The number that a word with a digit spells. -/
def numeric? (cs : List Char) : Option (Value E) :=
  match Numeral.int64? cs with
  | some n => some (.int n)
  | none =>
    match Binary64.read? cs with
    | some x => some (.float x)
    | none => (Complex.read? cs).map .complex

/-- The value that a word spells, if it is a literal. -/
def literal? (word : String) : Option (Value E) :=
  if word = "true" then some (.bool true)
  else if word = "false" then some (.bool false)
  else if word.toList.any Char.isDigit then numeric? word.toList
  else none

end Value

end FlatLisp
