import FlatLisp.Proofs.Simulation.Basic

/-!
# Operands in simulated runs

A signature checks corresponding operands alike, and the parameters of a function read corresponding
arguments from them. So a call fails in both runs with the same message, or reaches the body of the
function with corresponding arguments.
-/

namespace FlatLisp

/-! ## Reading one operand -/

namespace ParamType

variable {E : Type}

/-- What a parameter takes, or the complaint that it takes nothing. -/
def require (type : ParamType) (position : Nat) (found : String) (payload? : Option (type.Carrier E)) :
    Except Error (type.Carrier E) :=
  payload?.elim (.error (.typeMismatch position type.spec.expected found)) .ok

/-- Reading a value. -/
theorem read_value (type : ParamType) (v : Value E) (position : Nat) :
    type.read (.value v) position =
      EvalM.ofExcept (type.require position v.kind.name (type.ofValue? v)) := by
  simp only [read, pure_bind]
  cases type.ofValue? v <;> rfl

/-- Reading a program. -/
theorem read_program (type : ParamType) (p : Program) (position : Nat) :
    type.read (E := E) (.program p) position =
      EvalM.ofExcept (type.require position Kind.program.name (type.ofProgram? p)) := by
  simp only [read, pure_bind]
  cases type.ofProgram? (E := E) p <;> rfl

/-- Reading a payload. -/
theorem read_raw (type : ParamType) (r : Foreign E) (position : Nat) :
    type.read (.raw r) position = EvalM.newId >>= fun id =>
      EvalM.ofExcept (type.require position (Operand.raw r).kindName (type.ofForeign? id r)) := by
  simp only [read, pure_bind]
  refine congrArg (EvalM.newId >>= ·) (funext fun id => ?_)
  cases type.ofForeign? id r <;> rfl

end ParamType

end FlatLisp

namespace FlatLisp.Simulation

open FlatLisp.Correspondence

variable {E : Type} (sim : Simulation E) {α β γ δ : Type} {A : α → β → Prop} {B : γ → δ → Prop}

/-! ## Adapting operands -/

/-- Corresponding answers can be followed by corresponding computations. -/
theorem answers_bind {r : Except Error α} {r' : Except Error β} {f : α → Except Error γ}
    {f' : β → Except Error δ} (h : Answers A r r') (hf : ∀ a b, A a b → Answers B (f a) (f' b)) :
    Answers B (r >>= f) (r' >>= f') := by
  cases h with
  | ok h => exact hf _ _ h
  | error h => exact .error h

/-- A computation that answers alike can be followed by corresponding computations on the answer. -/
theorem answers_bind_self {r : Except Error α} {f : α → Except Error γ} {f' : α → Except Error δ}
    (h : Answers Eq r r) (hf : ∀ a, Answers B (f a) (f' a)) : Answers B (r >>= f) (r >>= f') := by
  apply answers_bind h
  intro a b hab
  subst hab
  exact hf a

/-- The answer of a computation that answers alike can be converted. -/
theorem answers_map_self {r : Except Error α} {f : α → γ} {f' : α → δ} (h : Answers Eq r r)
    (hf : ∀ a, B (f a) (f' a)) : Answers B (r.map f) (r.map f') := by
  cases h with
  | ok _ => exact .ok (hf _)
  | error h => exact .error h

variable {o o' : Operand E} {operands operands' : List (Operand E)}

/-- Corresponding operands are named alike in messages. -/
theorem operands_kindName (h : sim.Operands o o') : o.kindName = o'.kindName := by
  cases h with
  | value h => exact congrArg Kind.name (sim.values_kind h)
  | program => rfl
  | raw => rfl

/-- Corresponding operands have corresponding payloads. -/
theorem payloads_operand (h : sim.Operands o o') : sim.Payloads o.toForeign o'.toForeign := by
  cases h with
  | value h => exact sim.payloads_toForeign h
  | program => exact .unclaimed
  | raw h => exact h

/-- Corresponding operands still correspond when values are replaced by payloads. -/
theorem operands_flatten (h : sim.Operands o o') : sim.Operands o.flatten o'.flatten := by
  cases h with
  | value h => exact .raw (sim.payloads_toForeign h)
  | program h => exact .program h
  | raw h => exact .raw h

/-- A requirement is met by corresponding operands together. -/
theorem operands_accepts (spec : ParamSpec) (h : sim.Operands o o') :
    spec.accepts o = spec.accepts o' := by
  obtain ⟨_ | kind, flatten⟩ := spec
  · rfl
  · cases h with
    | value h => cases kind <;> simp only [ParamSpec.accepts, sim.values_accepts _ h]
    | program => rfl
    | raw => cases kind <;> rfl

/-- A requirement treats corresponding operands alike. -/
theorem answers_adaptOne (spec : ParamSpec) (position : Nat) (h : sim.Operands o o') :
    Answers sim.Operands (spec.adapt o position) (spec.adapt o' position) := by
  unfold ParamSpec.adapt
  rw [sim.operands_accepts spec h, sim.operands_kindName h]
  split
  · split
    · exact .ok (sim.operands_flatten h)
    · exact .ok h
  · exact .error trivial

/-- Requirements from left to right treat corresponding operands alike. -/
theorem answers_adaptFrom (variadic : Option ParamSpec) (position : Nat) (specs : List ParamSpec)
    (h : List.Forall₂ sim.Operands operands operands') :
    Answers (List.Forall₂ sim.Operands) (Signature.adaptFrom variadic position specs operands)
      (Signature.adaptFrom variadic position specs operands') := by
  induction h generalizing position specs with
  | nil =>
    simp only [Signature.adaptFrom]
    exact .ok .nil
  | cons h _ ih =>
    cases specs with
    | nil =>
      simp only [Signature.adaptFrom]
      exact answers_bind (sim.answers_adaptOne _ _ h) fun _ _ ha =>
        answers_bind (ih _ _) fun _ _ hs => .ok (.cons ha hs)
    | cons spec specs =>
      simp only [Signature.adaptFrom]
      exact answers_bind (sim.answers_adaptOne _ _ h) fun _ _ ha =>
        answers_bind (ih _ _) fun _ _ hs => .ok (.cons ha hs)

/-- A signature treats corresponding operands alike. -/
theorem answers_adapt (signature : Signature) (h : List.Forall₂ sim.Operands operands operands') :
    Answers (List.Forall₂ sim.Operands) (signature.adapt operands) (signature.adapt operands') := by
  unfold Signature.adapt
  split
  · rw [h.length_eq]
    split
    · exact sim.answers_adaptFrom _ _ _ h
    · exact .error trivial
  · exact .ok (List.forall₂_map_left_iff.mpr (List.forall₂_map_right_iff.mpr
      (h.imp fun _ _ h => sim.operands_flatten h)))

/-! ## Reading arguments -/

/-- A parameter takes corresponding content from corresponding values. -/
theorem rel_ofValue? (type : ParamType) {v v' : Value E} (h : sim.Values v v') :
    Option.Rel (sim.Carriers type) (type.ofValue? v) (type.ofValue? v') := by
  cases type with
  | value => exact .some h
  | program => exact .none
  | function =>
    cases h with
    | function h => exact .some h
    | _ => exact .none
  | object =>
    cases h with
    | object h => exact .some h
    | _ => exact .none
  | number => cases h <;> first | exact .some rfl | exact .none
  | _ => cases h <;> first | exact .some rfl | exact .none

/-- A parameter takes corresponding content from corresponding payloads. -/
theorem rel_ofForeign? (type : ParamType) {a a' : Nat} (ha : sim.Ids a a') {r r' : Foreign E}
    (h : sim.Payloads r r') :
    Option.Rel (sim.Carriers type) (type.ofForeign? a r) (type.ofForeign? a' r') := by
  cases type with
  | value => exact .some (sim.values_ensure ha h)
  | program => exact .none
  | function =>
    cases h with
    | function h => exact .some h
    | _ => exact .none
  | object =>
    cases h with
    | object h => exact .some h
    | _ => exact .none
  | _ => cases h <;> first | exact .some rfl | exact .none

/-- A parameter takes a program that may be evaluated. -/
theorem rel_ofProgram? (type : ParamType) {p : Program} (h : sim.Admits p) :
    Option.Rel (sim.Carriers type) (type.ofProgram? (E := E) p) (type.ofProgram? p) := by
  cases type with
  | program => exact .some ⟨rfl, h⟩
  | _ => exact .none

/-- Corresponding content is required alike. -/
theorem answers_require (type : ParamType) (position : Nat) (found : String)
    {x x' : Option (type.Carrier E)} (h : Option.Rel (sim.Carriers type) x x') :
    Answers (sim.Carriers type) (type.require position found x) (type.require position found x') := by
  cases h with
  | some h => exact .ok h
  | none => exact .error trivial

/-- A parameter reads corresponding operands alike. -/
theorem runs_read (type : ParamType) (position : Nat) (h : sim.Operands o o') :
    sim.Runs (sim.Carriers type) (type.read o position) (type.read o' position) := by
  cases h with
  | value h =>
    rw [ParamType.read_value, ParamType.read_value, sim.values_kind h]
    exact sim.runs_ofExcept (sim.answers_require type position _ (sim.rel_ofValue? type h))
  | program h =>
    rw [ParamType.read_program]
    exact sim.runs_ofExcept (sim.answers_require type position _ (sim.rel_ofProgram? type h))
  | raw h =>
    rw [ParamType.read_raw, ParamType.read_raw]
    exact runs_bind sim.newId fun _ _ ha =>
      sim.runs_ofExcept (sim.answers_require type position _ (sim.rel_ofForeign? type ha h))

/-- Parameters of one type read corresponding operands alike. -/
theorem runs_readRest (type : ParamType) (position : Nat)
    (h : List.Forall₂ sim.Operands operands operands') :
    sim.Runs (List.Forall₂ (sim.Carriers type)) (Args.readRest type position operands)
      (Args.readRest type position operands') := by
  induction h generalizing position with
  | nil => exact runs_pure .nil
  | cons h _ ih =>
    exact runs_bind (sim.runs_read type position h) fun _ _ ha =>
      runs_bind (ih _) fun _ _ hs => runs_pure (.cons ha hs)

/-- The parameters of a function read corresponding operands alike. -/
theorem runs_readFrom {missing : Error} (hm : missing.IsOrdinary) (types : List ParamType)
    (rest : Option ParamType) (position : Nat)
    (h : List.Forall₂ sim.Operands operands operands') :
    sim.Runs (sim.Arguments types rest) (Args.readFrom missing types rest position operands)
      (Args.readFrom missing types rest position operands') := by
  induction types generalizing position operands operands' with
  | nil =>
    cases rest with
    | none => exact runs_pure trivial
    | some type => exact sim.runs_readRest type position h
  | cons type types ih =>
    cases h with
    | nil => exact sim.runs_throw hm
    | cons ho hs =>
      exact runs_bind (sim.runs_read type position ho) fun _ _ ha =>
        runs_bind (ih _ hs) fun _ _ has => runs_pure ⟨ha, has⟩

end FlatLisp.Simulation
