import FlatLisp.Program.Basic
import FlatLisp.Text.Blank

/-!
# Reading tokens from text

A token is a parenthesis or a longest run of characters that are neither blank nor a parenthesis.
When comments are handled, `;` also ends a word and opens a comment that runs up to the end of its
line. A line ends with a line feed, alone or after a carriage return. A comment that meets a
carriage return on its own has no end: the text from its `;` on gives no more tokens.
-/

namespace FlatLisp.Lexer

open FlatLisp.Text

/-- What the reader is in the middle of: a word, whose characters so far are kept last first, or a
comment. -/
inductive Pending where
  | word (letters : List Char)
  | comment

/-- The token of a word that has ended, in front of the tokens that follow it. -/
def finish : List Char → List Token → List Token
  | [], ts => ts
  | letters, ts => .word (String.ofList letters.reverse) :: ts

/-- The tokens of the text `cs`, with what is pending in front of it. -/
def scan (comments : Bool) : Pending → List Char → List Token
  | .word letters, [] => finish letters []
  | .comment, [] => []
  | .word letters, c :: cs =>
    if c = '(' then finish letters (.left :: scan comments (.word []) cs)
    else if c = ')' then finish letters (.right :: scan comments (.word []) cs)
    else if isBlank c then finish letters (scan comments (.word []) cs)
    else if comments && c == ';' then finish letters (scan comments .comment cs)
    else scan comments (.word (c :: letters)) cs
  | .comment, '\n' :: cs => scan comments (.word []) cs
  | .comment, '\r' :: '\n' :: cs => scan comments (.word []) cs
  | .comment, '\r' :: _ => []
  | .comment, _ :: cs => scan comments .comment cs

end FlatLisp.Lexer

namespace FlatLisp.Program

/-- The tokens of `text`, whether or not its parentheses match. -/
def tokenize (comments : Bool) (text : String) : Program :=
  Lexer.scan comments (.word []) text.toList

end FlatLisp.Program
