import FlatLisp.Text.Extending
import FlatLisp.Text.Hidden

/-!
# Quoted text

Text is quoted so that every character of it can be seen: quotes and backslashes are marked, and
characters that do not show, or that join the character in front of them, are written as their code
point.
-/

namespace FlatLisp.Text

/-- The halfwidth sound marks of the kana. They extend a cluster, and yet are drawn beside the
character in front of them. -/
def halfwidthSoundMarks : CodePoints := [(0xFF9E, 0xFF9F)]

/-- Whether a character is written as its code point. -/
def isUnseen (c : Char) : Bool :=
  hidden.contains c || (extending.contains c && !halfwidthSoundMarks.contains c)

/-- One character inside quotes. -/
def quotedChar (c : Char) : List Char :=
  match c with
  | '"' => ['\\', '"']
  | '\\' => ['\\', '\\']
  | '\n' => ['\\', 'n']
  | '\r' => ['\\', 'r']
  | '\t' => ['\\', 't']
  | '\x00' => ['\\', '0']
  | c => if isUnseen c then "\\u\x7b".toList ++ Nat.toDigits 16 c.toNat ++ ['}'] else [c]

/-- Text in quotes. -/
def quoted (text : String) : String :=
  String.ofList ('"' :: text.toList.flatMap quotedChar ++ ['"'])

end FlatLisp.Text
