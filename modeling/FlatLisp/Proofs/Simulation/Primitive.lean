import FlatLisp.Proofs.Simulation.Operand

/-!
# Builtin operations and host functions in simulated runs

Arithmetic sees numbers only, which are the same in both runs, and it never reports on parentheses.
Functions that take any value (equality and printing) look no deeper than its kind, its text and the
number of a function or object. Host functions reject functions and objects unseen.
-/

namespace FlatLisp

open Correspondence

/-! ## Arithmetic -/

namespace Number

/-- An integer result may fail by overflow only. -/
theorem answers_orOverflow (operation : String) (n : Option Int64) :
    Answers Eq (orOverflow operation n) (orOverflow operation n) := by
  cases n with
  | some k => exact .ok rfl
  | none => exact .error trivial

/-- An exact integer may fail by overflow only. -/
theorem answers_exact (operation : String) (n : Int) :
    Answers Eq (exact operation n) (exact operation n) :=
  answers_orOverflow operation (narrow? n)

/-- A divisor may be refused for being zero only. -/
theorem answers_requireNonzero (divisor : Number) :
    Answers Eq (requireNonzero divisor) (requireNonzero divisor) := by
  unfold requireNonzero
  split
  · exact .error trivial
  · exact .ok rfl

/-- Sums fail in an ordinary way, if at all. -/
theorem answers_add (a b : Number) : Answers Eq (add a b) (add a b) := by
  unfold add
  split
  · exact answers_exact _ _
  · exact .ok rfl
  · exact .ok rfl

/-- Products fail in an ordinary way, if at all. -/
theorem answers_mul (a b : Number) : Answers Eq (mul a b) (mul a b) := by
  unfold mul
  split
  · exact answers_exact _ _
  · exact .ok rfl
  · exact .ok rfl

/-- Differences fail in an ordinary way, if at all. -/
theorem answers_sub (a b : Number) : Answers Eq (sub a b) (sub a b) := by
  unfold sub
  split
  · exact answers_exact _ _
  · exact .ok rfl
  · exact .ok rfl

/-- Quotients fail in an ordinary way, if at all. -/
theorem answers_div (a b : Number) : Answers Eq (div a b) (div a b) := by
  unfold div
  apply Simulation.answers_bind_self (answers_requireNonzero b)
  intro _
  split <;> exact .ok rfl

/-- Rounded quotients fail in an ordinary way, if at all. -/
theorem answers_floorDiv (a b : Number) : Answers Eq (floorDiv a b) (floorDiv a b) := by
  unfold floorDiv
  apply Simulation.answers_bind_self (answers_requireNonzero b)
  intro _
  split
  · exact answers_orOverflow _ _
  · exact .ok rfl
  · exact .error trivial

/-- Remainders fail in an ordinary way, if at all. -/
theorem answers_modulo (a b : Number) : Answers Eq (modulo a b) (modulo a b) := by
  unfold modulo
  apply Simulation.answers_bind_self (answers_requireNonzero b)
  intro _
  split
  · exact .ok rfl
  · exact .ok rfl
  · exact .error trivial

/-- Powers fail in an ordinary way, if at all. -/
theorem answers_power (a b : Number) : Answers Eq (power a b) (power a b) := by
  unfold power
  by_cases hz : (a.isZero && b.isNegativeReal) = true
  · simp only [hz, ↓reduceIte]
    exact .error (e := .domain .zeroToNegative) trivial
  · simp only [hz, Bool.false_eq_true, ↓reduceIte]
    split
    · split
      · exact .ok rfl
      · exact answers_orOverflow _ _
    · split <;> exact .ok rfl
    · exact .ok rfl

/-- Comparisons fail in an ordinary way, if at all. -/
theorem answers_compare (operation : String) (a b : Number) :
    Answers Eq (compare operation a b) (compare operation a b) := by
  unfold compare
  split
  · exact .ok rfl
  · exact .ok rfl
  · exact .error trivial

/-- Tests of the order fail in an ordinary way, if at all. -/
theorem answers_ordered (operation : String) (wanted : List Ordering) (a b : Number) :
    Answers Eq (ordered operation wanted a b) (ordered operation wanted a b) := by
  unfold ordered
  apply Simulation.answers_bind_self (answers_compare operation a b)
  intro order
  cases order <;> exact .ok rfl

/-- An operation that fails in an ordinary way does so when repeated. -/
theorem answers_accumulate {operation : Number → Number → Except Error Number}
    (h : ∀ a b, Answers Eq (operation a b) (operation a b)) (a : Number) (rest : List Number) :
    Answers Eq (accumulate operation a rest) (accumulate operation a rest) := by
  induction rest generalizing a with
  | nil => exact .ok rfl
  | cons b rest ih =>
    apply Simulation.answers_bind_self (h a b)
    intro sum
    exact ih sum

/-- Extremes fail in an ordinary way, if at all. -/
theorem answers_extreme (operation : String) (wanted : Ordering) (a : Number)
    (rest : List Number) :
    Answers Eq (extreme operation wanted a rest) (extreme operation wanted a rest) := by
  induction rest generalizing a with
  | nil => exact .ok rfl
  | cons b rest ih =>
    apply Simulation.answers_bind_self (answers_compare operation b a)
    intro order
    exact ih _

end Number

/-! ## Typed functions -/

/-- Whether arguments of the type are the same in all simulated runs. -/
def ParamType.isFlat : ParamType → Bool
  | .value | .function | .object => false
  | _ => true

namespace Simulation

variable {E : Type} (sim : Simulation E)

/-- A function that does corresponding things for corresponding callers and arguments. -/
def Respects (f : Typed E) : Prop :=
  ∀ caller caller' args args', sim.Callers caller caller' →
    sim.Arguments f.params f.rest args args' →
    sim.Runs sim.Values (f.run caller args) (f.run caller' args')

variable {sim} {f : Typed E} {caller caller' : Caller E} {operands operands' : List (Operand E)}

/-- A function that respects a simulation does so when it is invoked on operands. -/
theorem Respects.runs_invoke (hf : sim.Respects f) (hc : sim.Callers caller caller')
    (h : List.Forall₂ sim.Operands operands operands') :
    sim.Runs sim.Values (f.invoke caller operands) (f.invoke caller' operands') := by
  unfold Typed.invoke
  rw [h.length_eq]
  have hm : (Error.arityMismatch f.arity operands'.length).IsOrdinary := trivial
  exact runs_bind (sim.runs_readFrom hm f.params f.rest 1 h) fun _ _ ha => hf _ _ _ _ hc ha

/-- A function of its arguments alone respects a simulation if its answers correspond. -/
theorem respects_pure {params : List ParamType} {rest : Option ParamType}
    {run : Args E params rest → Except Error (Value E)}
    (h : ∀ args args', sim.Arguments params rest args args' →
      Answers sim.Values (run args) (run args')) : sim.Respects (.pure params rest run) :=
  fun _ _ _ _ _ ha => sim.runs_ofExcept (h _ _ ha)

/-- Arguments of a flat type are the same in both runs. -/
theorem eq_of_carriers {type : ParamType} (hflat : type.isFlat = true) {a a' : type.Carrier E}
    (h : sim.Carriers type a a') : a = a' := by
  cases type with
  | value | function | object => cases hflat
  | program => exact h.1
  | bool | int | float | complex | number | symbol => exact h

/-- Arguments of flat types are the same in both runs. -/
theorem eq_of_arguments {types : List ParamType} {rest : Option ParamType}
    (htypes : types.all ParamType.isFlat = true) (hrest : rest.all ParamType.isFlat = true)
    {args args' : Args E types rest} (h : sim.Arguments types rest args args') : args = args' := by
  induction types with
  | nil =>
    cases rest with
    | none => rfl
    | some type =>
      have heq : List.Forall₂ Eq args args' := h.imp fun _ _ => eq_of_carriers hrest
      exact List.forall₂_eq_eq_eq ▸ heq
  | cons type types ih =>
    obtain ⟨htype, htypes⟩ := Bool.and_eq_true_iff.mp htypes
    exact Prod.ext (eq_of_carriers htype h.1) (ih htypes h.2)

/-- A function of flat arguments alone respects every simulation if it answers alike for the same
arguments. -/
theorem respects_flat {params : List ParamType} {rest : Option ParamType}
    {run : Args E params rest → Except Error (Value E)}
    (hparams : params.all ParamType.isFlat = true) (hrest : rest.all ParamType.isFlat = true)
    (h : ∀ args, Answers sim.Values (run args) (run args)) :
    sim.Respects (.pure params rest run) := by
  apply respects_pure
  intro args args' ha
  rw [eq_of_arguments hparams hrest ha]
  exact h args'

/-- Operations on two numbers respect every simulation. -/
theorem respects_binary {operation : Number → Number → Except Error Number}
    (h : ∀ a b, Answers Eq (operation a b) (operation a b)) :
    sim.Respects (Builtin.binary operation) := by
  apply respects_flat rfl rfl
  intro args
  exact answers_map_self (h args.1 args.2.1) sim.values_ofNumber

/-- Operations on two or more numbers respect every simulation. -/
theorem respects_folded {operation : Number → List Number → Except Error Number}
    (h : ∀ a rest, Answers Eq (operation a rest) (operation a rest)) :
    sim.Respects (Builtin.folded operation) := by
  apply respects_flat rfl rfl
  intro args
  exact answers_map_self (h args.1 (args.2.1 :: args.2.2)) sim.values_ofNumber

/-- Comparisons respect every simulation. -/
theorem respects_comparison (name : String) (wanted : List Ordering) :
    sim.Respects (Builtin.comparison name wanted) := by
  apply respects_flat rfl rfl
  intro args
  exact answers_map_self (Number.answers_ordered name wanted args.1 args.2.1) .bool

/-- Tests of equality respect every simulation. -/
theorem respects_equality (test : Bool → Bool) :
    sim.Respects (.pure [.value, .value] none fun args =>
      .ok (.bool (test (args.1.same args.2.1)))) := by
  apply respects_pure
  intro args args' ha
  have hsame : args.1.same args.2.1 = args'.1.same args'.2.1 := sim.values_same ha.1 ha.2.1
  rw [hsame]
  exact .ok (.bool _)

/-- Builtin operations respect every simulation. -/
theorem respects_builtin (b : Builtin) : sim.Respects b.typed := by
  cases b with
  | add => exact respects_folded (Number.answers_accumulate Number.answers_add)
  | mul => exact respects_folded (Number.answers_accumulate Number.answers_mul)
  | sub => exact respects_binary Number.answers_sub
  | div => exact respects_binary Number.answers_div
  | floorDiv => exact respects_binary Number.answers_floorDiv
  | modulo => exact respects_binary Number.answers_modulo
  | power => exact respects_binary Number.answers_power
  | max => exact respects_folded (Number.answers_extreme "max" .gt)
  | min => exact respects_folded (Number.answers_extreme "min" .lt)
  | less => exact respects_comparison "<" [.lt]
  | lessEqual => exact respects_comparison "<=" [.lt, .eq]
  | greater => exact respects_comparison ">" [.gt]
  | greaterEqual => exact respects_comparison ">=" [.gt, .eq]
  | equal => exact respects_equality id
  | notEqual => exact respects_equality not
  | not | and | or => exact respects_flat rfl rfl fun _ => .ok (.bool _)
  | print =>
    intro _ _ args args' _ ha
    obtain ⟨v, _⟩ := args
    obtain ⟨v', _⟩ := args'
    change sim.Runs sim.Values (EvalM.print (v.render ++ "\n") >>= fun _ => pure .empty)
      (EvalM.print (v'.render ++ "\n") >>= fun _ => pure .empty)
    rw [sim.values_render ha.1]
    exact runs_bind (sim.print _) fun _ _ _ => runs_pure .empty

/-! ## Host functions -/

open HostFunction

/-- Values that a host function cannot tell apart: it sees functions and objects by kind alone. -/
inductive SameView : Value E → Value E → Prop
  | same (v : Value E) : SameView v v
  | function (f f' : Function E) : SameView (.function f) (.function f')
  | object (o o' : Object E) : SameView (.object o) (.object o')

/-- Host functions cannot tell corresponding values apart. -/
theorem sameView_of_values {v v' : Value E} (h : sim.Values v v') : SameView v v' := by
  cases h with
  | function => exact .function _ _
  | object => exact .object _ _
  | _ => exact .same _

/-- Host functions cannot tell corresponding payloads apart. -/
theorem sameView_view {r r' : Foreign E} (h : sim.Payloads r r') :
    SameView (view r) (view r') := by
  cases h with
  | function => exact .function _ _
  | object => exact .object _ _
  | boxed h => exact sameView_of_values h
  | _ => exact .same _

/-- A payload is the same number in both runs, if any. -/
theorem number_congr {r r' : Foreign E} (h : sim.Payloads r r') : number r = number r' := by
  have hview := sameView_view h
  unfold number
  generalize view r = v, view r' = v' at hview
  cases hview <;> rfl

/-- A payload is the same real number in both runs, if any. -/
theorem real_congr {r r' : Foreign E} (h : sim.Payloads r r') : real r = real r' := by
  unfold real
  rw [number_congr h]

/-- A payload that is no number is refused in an ordinary way. -/
theorem answers_number (r : Foreign E) : Answers Eq (number r) (number r) := by
  unfold number
  split
  · exact .ok rfl
  · exact .error trivial

/-- A payload that is no real number is refused in an ordinary way. -/
theorem answers_real (r : Foreign E) : Answers Eq (real r) (real r) := by
  unfold real
  apply answers_bind_self (answers_number r)
  intro n
  cases n.toFloat? with
  | some x => exact .ok rfl
  | none => exact .error trivial

/-- A float without an integer value is refused in an ordinary way. -/
theorem answers_toInteger (x : Float) : Answers Eq (toInteger x) (toInteger x) := by
  unfold toInteger
  split
  · exact .ok rfl
  · exact .error trivial

/-- A magnitude out of range is refused in an ordinary way. -/
theorem answers_integerMagnitude (n : Int) :
    Answers Eq (integerMagnitude n) (integerMagnitude n) := by
  unfold integerMagnitude
  split
  · exact .ok rfl
  · exact .error trivial

/-- Any number of payloads but one is refused alike in both runs. -/
theorem answers_single {rs rs' : List (Foreign E)} (h : List.Forall₂ sim.Payloads rs rs') :
    Answers sim.Payloads (single rs) (single rs') := by
  cases h with
  | nil => exact .error trivial
  | cons h hs =>
    cases hs with
    | nil => exact .ok h
    | cons _ hs =>
      simp only [single, List.length_cons, hs.length_eq]
      exact .error trivial

variable {rs rs' : List (Foreign E)}

/-- Functions of the reals answer alike in both runs. -/
theorem answers_realFunction (g : Float → Float) (h : List.Forall₂ sim.Payloads rs rs') :
    Answers sim.Payloads (realFunction g rs) (realFunction g rs') := by
  unfold realFunction
  refine answers_bind (answers_single h) fun r r' hr => ?_
  rw [real_congr hr]
  apply answers_bind_self (answers_real r')
  intro x
  dsimp only
  split
  · exact .error (e := .domain .undefinedPoint) trivial
  · exact .ok (.float _)

/-- Functions that round answer alike in both runs. -/
theorem answers_wholeFunction (rounding : Binary64.Rounding)
    (h : List.Forall₂ sim.Payloads rs rs') :
    Answers sim.Payloads (wholeFunction rounding rs) (wholeFunction rounding rs') := by
  unfold wholeFunction
  refine answers_bind (answers_single h) fun r r' hr => ?_
  rw [real_congr hr]
  apply answers_bind_self (answers_real r')
  intro x
  exact answers_bind_self (answers_toInteger _) fun n => .ok (.int64 n)

/-- The magnitude is the same in both runs. -/
theorem answers_magnitude (h : List.Forall₂ sim.Payloads rs rs') :
    Answers sim.Payloads (magnitude rs) (magnitude rs') := by
  unfold magnitude
  refine answers_bind (answers_single h) fun r r' hr => ?_
  rw [number_congr hr]
  apply answers_bind_self (answers_number r')
  intro n
  cases n with
  | int n => exact answers_bind_self (answers_integerMagnitude _) fun k => .ok (.int64 k)
  | float x => exact .ok (.float _)
  | complex z => exact .ok (.float _)

/-- The nearest integer is the same in both runs. -/
theorem answers_nearestInteger (h : List.Forall₂ sim.Payloads rs rs') :
    Answers sim.Payloads (nearestInteger rs) (nearestInteger rs') := by
  unfold nearestInteger
  refine answers_bind (answers_single h) fun r r' hr => ?_
  rw [number_congr hr]
  apply answers_bind_self (answers_number r')
  intro n
  cases n with
  | int n => exact .ok (.int64 n)
  | float x => exact answers_bind_self (answers_toInteger _) fun n => .ok (.int64 n)
  | complex z => exact .error trivial

/-- Conversion to a float answers alike in both runs. -/
theorem answers_toFloat (h : List.Forall₂ sim.Payloads rs rs') :
    Answers sim.Payloads (toFloat rs) (toFloat rs') := by
  unfold toFloat
  refine answers_bind (answers_single h) fun r r' hr => ?_
  have hview := sameView_view hr
  generalize view r = v, view r' = v' at hview ⊢
  cases hview with
  | function f f' => exact .error trivial
  | object o o' => exact .error trivial
  | same v =>
    cases v with
    | symbol text =>
      dsimp only
      split
      · exact .ok (.float _)
      · exact .error trivial
    | bool b => exact .ok (.float _)
    | int n => exact .ok (.float _)
    | float x => exact .ok (.float _)
    | _ => exact .error trivial

/-- Conversion to an integer answers alike in both runs. -/
theorem answers_toInt (h : List.Forall₂ sim.Payloads rs rs') :
    Answers sim.Payloads (toInt rs) (toInt rs') := by
  unfold toInt
  refine answers_bind (answers_single h) fun r r' hr => ?_
  have hview := sameView_view hr
  generalize view r = v, view r' = v' at hview ⊢
  cases hview with
  | function f f' => exact .error trivial
  | object o o' => exact .error trivial
  | same v =>
    cases v with
    | symbol text =>
      dsimp only
      split
      · exact .ok (.int64 _)
      · exact .error trivial
    | bool b => exact .ok (.int64 _)
    | int n => exact .ok (.int64 _)
    | float x => exact answers_bind_self (answers_toInteger _) fun n => .ok (.int64 n)
    | _ => exact .error trivial

/-- Host functions answer alike in both runs. -/
theorem answers_host (f : HostFunction) (h : List.Forall₂ sim.Payloads rs rs') :
    Answers sim.Payloads (f.run rs) (f.run rs') := by
  cases f with
  | abs => exact answers_magnitude h
  | round => exact answers_nearestInteger h
  | float => exact answers_toFloat h
  | int => exact answers_toInt h
  | sqrt => exact answers_realFunction Float.sqrt h
  | exp => exact answers_realFunction Float.exp h
  | log => exact answers_realFunction Float.log h
  | sin => exact answers_realFunction Float.sin h
  | cos => exact answers_realFunction Float.cos h
  | floor => exact answers_wholeFunction .down h
  | ceil => exact answers_wholeFunction .up h

/-- A function of payloads does corresponding things for corresponding operands. -/
theorem runs_passThrough (caller caller' : Caller E) {run : List (Foreign E) → EvalM E (Foreign E)}
    (hrun : ∀ rs rs', List.Forall₂ sim.Payloads rs rs' → sim.Runs sim.Payloads (run rs) (run rs'))
    (h : List.Forall₂ sim.Operands operands operands') :
    sim.Runs sim.Values ((Native.passThrough run).invoke caller operands)
      ((Native.passThrough run).invoke caller' operands') := by
  have hpayloads : List.Forall₂ sim.Payloads (operands.map Operand.toForeign)
      (operands'.map Operand.toForeign) :=
    List.forall₂_map_left_iff.mpr (List.forall₂_map_right_iff.mpr
      (h.imp fun _ _ h => sim.payloads_operand h))
  exact runs_bind (hrun _ _ hpayloads) fun _ _ hr =>
    runs_bind sim.newId fun _ _ ha => runs_pure (sim.values_ensure ha hr)

end Simulation

end FlatLisp
