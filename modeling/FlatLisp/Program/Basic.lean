/-!
# Flat programs

A program is a flat sequence of tokens. There is no tree: the structure of a combination is
recovered by counting parentheses, and `Program.split` is the only decomposition that evaluation
uses. Keeping programs flat makes template expansion a substitution of tokens.
-/

namespace FlatLisp

/-- An indivisible lexeme: one of the two parentheses, or the text of a word. -/
inductive Token where
  | left
  | right
  | word (text : String)
deriving DecidableEq, Repr, Inhabited

namespace Token

/-- The token spelled `text`. -/
def ofText (text : String) : Token :=
  if text = "(" then .left else if text = ")" then .right else .word text

/-- The spelling of a token. -/
def text : Token → String
  | left => "("
  | right => ")"
  | word t => t

/-- Reading a spelling back gives the text that was spelled. -/
@[simp] theorem text_ofText (t : String) : (ofText t).text = t := by
  unfold ofText
  split
  · simp [text, *]
  · split <;> simp [text, *]

end Token

/-- A sequence of tokens. It is *atomic* when it is one word, a *combination* when its first
parenthesis is closed by its last token, and a *sequence* of forms otherwise. -/
abbrev Program := List Token

namespace Program

/-- The number of parentheses open after `ts` when `depth` are open before it, or `none` once one
is closed that was never opened. -/
def openAfter : Nat → List Token → Option Nat
  | depth, [] => some depth
  | depth, .left :: ts => openAfter (depth + 1) ts
  | 0, .right :: _ => none
  | depth + 1, .right :: ts => openAfter depth ts
  | depth, .word _ :: ts => openAfter depth ts

/-- The number of parentheses left open, or `none` if some `)` closes nothing. -/
def missingRight (p : Program) : Option Nat :=
  openAfter 0 p

/-- Every parenthesis has its partner. -/
def isValid (p : Program) : Bool :=
  p.missingRight == some 0

/-- One word. -/
def isAtomic : Program → Bool
  | [.word _] => true
  | _ => false

/-- Whether the last of `ts` is the first token to bring `depth` open parentheses down to none. -/
def closesLast : Nat → List Token → Bool
  | _, [] => false
  | depth, .left :: ts => closesLast (depth + 1) ts
  | 0, .right :: ts => closesLast 0 ts
  | 1, .right :: ts => ts.isEmpty
  | depth + 2, .right :: ts => closesLast (depth + 1) ts
  | depth, .word _ :: ts => closesLast depth ts

/-- Starts with a parenthesis whose partner is the last token; `(a) (b)` is not a combination. -/
def isCombination : Program → Bool
  | .left :: ts => closesLast 1 ts
  | _ => false

/-- The forms of a token sequence, in order. `group` is the combination being read, last token
first, and `depth` counts its open parentheses. A `)` that closes nothing is skipped and a
combination that is never closed is left out. -/
def forms : (depth : Nat) → (group : List Token) → List Token → List Program
  | _, _, [] => []
  | 0, _, .left :: ts => forms 1 [.left] ts
  | 0, _, .right :: ts => forms 0 [] ts
  | 0, _, .word w :: ts => [.word w] :: forms 0 [] ts
  | depth + 1, group, .left :: ts => forms (depth + 2) (.left :: group) ts
  | 1, group, .right :: ts => (Token.right :: group).reverse :: forms 0 [] ts
  | depth + 2, group, .right :: ts => forms (depth + 1) (.right :: group) ts
  | depth + 1, group, .word w :: ts => forms (depth + 1) (.word w :: group) ts

/-- The tokens that `split` takes apart: the inside of a combination, or else all of them. -/
def interior (p : Program) : List Token :=
  if p.isCombination then p.tail.dropLast else p

/-- The direct parts of a program: the operator and operands of a combination, or the forms of a
sequence. -/
def split (p : Program) : List Program :=
  forms 0 [] p.interior

/-- The program a name stands for; a later entry of `bindings` replaces an earlier one. -/
def replacement? (bindings : List (Token × Program)) (token : Token) : Option Program :=
  (bindings.reverse.find? fun entry => entry.1 == token).map (·.2)

/-- Replace every token that `bindings` names by the tokens bound to it, all at once: what is put
in is not looked at again. -/
def substitute (bindings : List (Token × Program)) (p : Program) : Program :=
  p.flatMap fun token => (replacement? bindings token).getD [token]

/-- Whether a space stands between two neighbouring tokens. -/
def spaced : Token → Token → Bool
  | .left, _ => false
  | _, .right => false
  | _, _ => true

/-- The text of `ts` when it follows the token `previous`. -/
def renderAfter (previous : Token) : List Token → String
  | [] => ""
  | t :: ts => (if spaced previous t then " " else "") ++ t.text ++ renderAfter t ts

/-- Canonical text: one space between tokens, none inside parentheses, as in `(+ 1 (f x))`. -/
def render : Program → String
  | [] => ""
  | t :: ts => t.text ++ renderAfter t ts

end Program

end FlatLisp
