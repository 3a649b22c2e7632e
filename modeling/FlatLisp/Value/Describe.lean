import FlatLisp.Text.Quoted
import FlatLisp.Value.Basic

/-!
# Descriptions of values

A description names the kind of a value and shows its payload unambiguously, for use in diagnostics:
text is quoted and the two parts of a complex number are named.
-/

namespace FlatLisp.Value

variable {E : Type}

/-- The kind of a value with its payload. -/
def describe (v : Value E) : String :=
  let float := Binary64.Layout.value.render
  match v with
  | .empty => "Empty"
  | .complex c => "Complex(Complex \x7b re: " ++ float c.re ++ ", im: " ++ float c.im ++ " \x7d)"
  | .symbol text => "Symbol(" ++ Text.quoted text ++ ")"
  | .function f => "Function(Function(" ++ f.render ++ "))"
  | v => v.kind.name ++ "(" ++ v.render ++ ")"

end FlatLisp.Value
