import FlatLisp.Call.Parameter
import FlatLisp.Number.Arithmetic

/-!
# Builtin operations

Each operation is declared by the types of its parameters; the work is done by the functions on
numbers.
-/

namespace FlatLisp

variable {E : Type}

/-- A function whose result depends on its arguments alone. -/
def Typed.pure (params : List ParamType) (rest : Option ParamType)
    (run : Args E params rest → Except Error (Value E)) : Typed E :=
  ⟨params, rest, false, fun _ args => EvalM.ofExcept (run args)⟩

namespace Builtin

/-- An operation on two numbers. -/
def binary (operation : Number → Number → Except Error Number) : Typed E :=
  .pure [.number, .number] none fun (a, b, _) => (operation a b).map Value.ofNumber

/-- An operation on two or more numbers. -/
def folded (operation : Number → List Number → Except Error Number) : Typed E :=
  .pure [.number, .number] (some .number) fun (a, b, rest) =>
    (operation a (b :: rest)).map Value.ofNumber

/-- A comparison of two numbers. -/
def comparison (name : String) (wanted : List Ordering) : Typed E :=
  .pure [.number, .number] none fun (a, b, _) => (Number.ordered name wanted a b).map Value.bool

/-- What an operation does. -/
def typed : Builtin → Typed E
  | add => folded (Number.accumulate Number.add)
  | mul => folded (Number.accumulate Number.mul)
  | sub => binary Number.sub
  | div => binary Number.div
  | floorDiv => binary Number.floorDiv
  | modulo => binary Number.modulo
  | power => binary Number.power
  | max => folded (Number.extreme "max" .gt)
  | min => folded (Number.extreme "min" .lt)
  | less => comparison "<" [.lt]
  | lessEqual => comparison "<=" [.lt, .eq]
  | greater => comparison ">" [.gt]
  | greaterEqual => comparison ">=" [.gt, .eq]
  | equal => .pure [.value, .value] none fun (a, b, _) => .ok (.bool (a.same b))
  | notEqual => .pure [.value, .value] none fun (a, b, _) => .ok (.bool !(a.same b))
  | not => .pure [.bool] none fun (b, _) => .ok (.bool !b)
  | and => .pure [.bool, .bool] (some .bool) fun (a, b, rest) =>
      .ok (.bool ((a :: b :: rest).all id))
  | or => .pure [.bool, .bool] (some .bool) fun (a, b, rest) =>
      .ok (.bool ((a :: b :: rest).any id))
  | print =>
    { params := [.value], rest := none, wantsScope := false
      run := fun _ (v, _) => do
        EvalM.print (v.render ++ "\n")
        return .empty }

end Builtin

end FlatLisp
