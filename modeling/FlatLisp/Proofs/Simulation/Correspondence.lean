import FlatLisp.Session
import Mathlib.Data.List.Forall2

/-!
# Correspondences between two runs

Two runs of the evaluator are compared by saying which data of the one stand for which data of the
other. The basic choices are the relations in `Correspondence`: numbers of functions and objects,
captured scopes, programs, objects, scopes in use and worlds. Values, payloads, operands and
arguments follow from them constructor by constructor.

`Correspondence.Runs` compares two computations. From corresponding worlds they end in the same way,
unless the first one is cut short by a failure that says nothing about the second.
-/

namespace FlatLisp

variable {E : Type}

/-- Whether a failure is something other than a report on parentheses. -/
def Error.IsOrdinary : Error → Prop
  | .malformedProgram _ => False
  | _ => True

/-- Which data of one run stand for which data of another. -/
structure Correspondence (E : Type) where
  /-- Numbers of functions and objects. -/
  Ids : Nat → Nat → Prop
  /-- Scopes that closures were defined in. -/
  Captures : ScopeId → ScopeId → Prop
  /-- Programs that may be evaluated or stored; both runs have the same ones. -/
  Admits : Program → Prop
  Objects : Object E → Object E → Prop
  /-- Scopes that evaluation takes place in. -/
  Scopes : ScopeId → ScopeId → Prop
  Worlds : World E → World E → Prop
  /-- Failures of both runs, each with the world that it leaves. -/
  Failures : Error → World E → Error → World E → Prop
  /-- Failures of the first run alone. -/
  Cut : Error → World E → Prop

namespace Correspondence

variable (c : Correspondence E)

/-- Bodies that do the same thing in corresponding scopes. -/
inductive Bodies : Body E → Body E → Prop
  | form (f : Form) : Bodies (.form f) (.form f)
  | builtin (b : Builtin) : Bodies (.builtin b) (.builtin b)
  | host (f : HostFunction) : Bodies (.host f) (.host f)
  | closure (formals : List String) {p : Program} {s s' : ScopeId} (hp : c.Admits p)
      (hs : c.Captures s s') : Bodies (.closure formals p s) (.closure formals p s')
  | template (formals : List String) {p : Program} (hp : c.Admits p) :
      Bodies (.template formals p) (.template formals p)
  | embedded (e : E) : Bodies (.embedded e) (.embedded e)

/-- Functions with the same text and corresponding bodies. -/
structure Functions (f f' : Function E) : Prop where
  ids : c.Ids f.id f'.id
  label : f.label = f'.label
  bodies : c.Bodies f.body f'.body

/-- Values of the same kind with corresponding content. -/
inductive Values : Value E → Value E → Prop
  | bool (b : Bool) : Values (.bool b) (.bool b)
  | int (n : Int64) : Values (.int n) (.int n)
  | float (x : Float) : Values (.float x) (.float x)
  | complex (z : Complex) : Values (.complex z) (.complex z)
  | symbol (text : String) : Values (.symbol text) (.symbol text)
  | empty : Values .empty .empty
  | function {f f' : Function E} (h : c.Functions f f') : Values (.function f) (.function f')
  | object {o o' : Object E} (h : c.Objects o o') : Values (.object o) (.object o')

/-- Bindings of the same name to corresponding values. -/
def Bindings (entry entry' : String × Value E) : Prop :=
  entry.1 = entry'.1 ∧ c.Values entry.2 entry'.2

/-- Payloads of the same type with corresponding content. -/
inductive Payloads : Foreign E → Foreign E → Prop
  | bool (b : Bool) : Payloads (.bool b) (.bool b)
  | int64 (n : Int64) : Payloads (.int64 n) (.int64 n)
  | int32 (n : Int32) : Payloads (.int32 n) (.int32 n)
  | word32 (n : UInt32) : Payloads (.word32 n) (.word32 n)
  | float (x : Float) : Payloads (.float x) (.float x)
  | single (x : Float32) : Payloads (.single x) (.single x)
  | complex (z : Complex) : Payloads (.complex z) (.complex z)
  | text (s : String) : Payloads (.text s) (.text s)
  | fixedText (s : String) : Payloads (.fixedText s) (.fixedText s)
  | unit : Payloads .unit .unit
  | function {f f' : Function E} (h : c.Functions f f') : Payloads (.function f) (.function f')
  | object {o o' : Object E} (h : c.Objects o o') : Payloads (.object o) (.object o')
  | boxed {v v' : Value E} (h : c.Values v v') : Payloads (.boxed v) (.boxed v')
  | unclaimed : Payloads .unclaimed .unclaimed

/-- Operands of the same form with corresponding content. -/
inductive Operands : Operand E → Operand E → Prop
  | value {v v' : Value E} (h : c.Values v v') : Operands (.value v) (.value v')
  | program {p : Program} (h : c.Admits p) : Operands (.program p) (.program p)
  | raw {r r' : Foreign E} (h : c.Payloads r r') : Operands (.raw r) (.raw r')

/-- What a parameter of the given type receives in the two runs. -/
def Carriers : (type : ParamType) → type.Carrier E → type.Carrier E → Prop
  | .value => c.Values
  | .program => fun p p' => p = p' ∧ c.Admits p
  | .function => c.Functions
  | .object => c.Objects
  | .bool | .int | .float | .complex | .number | .symbol => Eq

/-- What the parameters of a function receive in the two runs. -/
def Arguments : (types : List ParamType) → (rest : Option ParamType) →
    Args E types rest → Args E types rest → Prop
  | [], none, _, _ => True
  | [], some type, as, as' => List.Forall₂ (c.Carriers type) as as'
  | type :: types, rest, a, a' => c.Carriers type a.1 a'.1 ∧ Arguments types rest a.2 a'.2

variable {α β γ δ : Type}

/-- Results of computations that do not depend on the world. -/
inductive Answers (A : α → β → Prop) : Except Error α → Except Error β → Prop
  | ok {a : α} {b : β} (h : A a b) : Answers A (.ok a) (.ok b)
  | error {e : Error} (h : e.IsOrdinary) : Answers A (.error e) (.error e)

/-- Results of computations together with the worlds that they leave. -/
inductive Outcomes (A : α → β → Prop) :
    Except Error α × World E → Except Error β × World E → Prop
  | ok {a : α} {b : β} {w w' : World E} (h : A a b) (hw : c.Worlds w w') :
      Outcomes A (.ok a, w) (.ok b, w')
  | failed {e e' : Error} {w w' : World E} (h : c.Failures e w e' w') :
      Outcomes A (.error e, w) (.error e', w')
  | cut {e : Error} {w : World E} (o : Except Error β × World E) (h : c.Cut e w) :
      Outcomes A (.error e, w) o

/-- Computations that lead from corresponding worlds to corresponding outcomes. -/
def Runs (A : α → β → Prop) (m : EvalM E α) (m' : EvalM E β) : Prop :=
  ∀ w w', c.Worlds w w' → c.Outcomes A (m w) (m' w')

/-- Callers that offer corresponding evaluations in corresponding scopes. -/
structure Callers (caller caller' : Caller E) : Prop where
  scope : c.Scopes caller.scope caller'.scope
  evaluate : ∀ {s s' p}, c.Scopes s s' → c.Admits p →
    c.Runs c.Values (caller.evaluate s p) (caller'.evaluate s' p)
  call : ∀ {f f' operands operands'}, c.Functions f f' →
    List.Forall₂ c.Operands operands operands' →
    c.Runs c.Values (caller.call f operands) (caller'.call f' operands')

/-- The functions of the embedder make no difference between corresponding callers. -/
def RespectedByEmbedding [Embedding E] : Prop :=
  ∀ (e : E) (caller caller' : Caller E) (operands operands' : List (Operand E)),
    c.Callers caller caller' → List.Forall₂ c.Operands operands operands' →
    c.Runs c.Values ((Embedding.native e).invoke caller operands)
      ((Embedding.native e).invoke caller' operands')

variable {c} {A : α → β → Prop} {B : γ → δ → Prop}

/-- Returning corresponding results leaves corresponding worlds as they are. -/
theorem runs_pure {a : α} {b : β} (h : A a b) : c.Runs A (pure a) (pure b) :=
  fun _ _ hw => .ok h hw

/-- What a computation followed by another one does if it has a result. -/
theorem run_bind_ok {m : EvalM E α} (f : α → EvalM E γ) {a : α} {w w₁ : World E}
    (h : m w = (.ok a, w₁)) : (m >>= f) w = f a w₁ := by
  change ExceptT.bindCont f (m w).1 (m w).2 = _
  rw [h]
  rfl

/-- What a computation followed by another one does if it fails. -/
theorem run_bind_error {m : EvalM E α} (f : α → EvalM E γ) {e : Error} {w w₁ : World E}
    (h : m w = (.error e, w₁)) : (m >>= f) w = (.error e, w₁) := by
  change ExceptT.bindCont f (m w).1 (m w).2 = _
  rw [h]
  rfl

/-- Corresponding computations can be followed by corresponding computations. -/
theorem runs_bind {m : EvalM E α} {m' : EvalM E β} {f : α → EvalM E γ} {f' : β → EvalM E δ}
    (hm : c.Runs A m m') (hf : ∀ a b, A a b → c.Runs B (f a) (f' b)) :
    c.Runs B (m >>= f) (m' >>= f') := by
  intro w w' hw
  have h := hm w w' hw
  generalize hrun : m w = o, hrun' : m' w' = o' at h
  cases h with
  | ok h hw =>
    rw [run_bind_ok f hrun, run_bind_ok f' hrun']
    exact hf _ _ h _ _ hw
  | failed h =>
    rw [run_bind_error f hrun, run_bind_error f' hrun']
    exact .failed h
  | cut _ h =>
    rw [run_bind_error f hrun]
    exact .cut _ h

/-- Results may be compared more coarsely. -/
theorem Runs.mono {A' : α → β → Prop} {m : EvalM E α} {m' : EvalM E β} (hm : c.Runs A m m')
    (h : ∀ a b, A a b → A' a b) : c.Runs A' m m' := by
  intro w w' hw
  have ho := hm w w' hw
  generalize m w = o, m' w' = o' at ho ⊢
  cases ho with
  | ok ha hw => exact .ok (h _ _ ha) hw
  | failed he => exact .failed he
  | cut _ he => exact .cut _ he

/-! ## Exact correspondences -/

variable (c) in
/-- Data that correspond are the same. -/
structure IsFaithful : Prop where
  ids {a b : Nat} (h : c.Ids a b) : a = b
  captures {s t : ScopeId} (h : c.Captures s t) : s = t
  objects {o o' : Object E} (h : c.Objects o o') : o = o'

/-- Bodies that correspond are the same. -/
theorem IsFaithful.eq_of_bodies (h : c.IsFaithful) {b b' : Body E} (hb : c.Bodies b b') :
    b = b' := by
  cases hb with
  | closure formals _ hs => rw [h.captures hs]
  | _ => rfl

/-- Functions that correspond are the same. -/
theorem IsFaithful.eq_of_functions (h : c.IsFaithful) {f f' : Function E} (hf : c.Functions f f') :
    f = f' := by
  obtain ⟨id, label, body⟩ := f
  obtain ⟨id', label', body'⟩ := f'
  obtain ⟨hid, hlabel, hbody⟩ := hf
  cases h.ids hid
  cases hlabel
  cases h.eq_of_bodies hbody
  rfl

/-- Values that correspond are the same. -/
theorem IsFaithful.eq_of_values (h : c.IsFaithful) {v v' : Value E} (hv : c.Values v v') :
    v = v' := by
  cases hv with
  | function hf => rw [h.eq_of_functions hf]
  | object ho => rw [h.objects ho]
  | _ => rfl

variable (c) in
/-- Data are compared for equality, and every program may be evaluated. Only scopes in use and worlds
are left to compare. -/
structure IsExact : Prop where
  ids {a b : Nat} : c.Ids a b ↔ a = b
  captures {s t : ScopeId} : c.Captures s t ↔ s = t
  admits (p : Program) : c.Admits p
  objects {o o' : Object E} : c.Objects o o' ↔ o = o'

/-- What is compared for equality is the same. -/
theorem IsExact.isFaithful (h : c.IsExact) : c.IsFaithful :=
  ⟨h.ids.mp, h.captures.mp, h.objects.mp⟩

/-- Functions are compared for equality. -/
theorem IsExact.functions_iff (h : c.IsExact) {f f' : Function E} : c.Functions f f' ↔ f = f' := by
  constructor
  · exact h.isFaithful.eq_of_functions
  · intro hf
    subst hf
    refine ⟨h.ids.mpr rfl, rfl, ?_⟩
    cases f.body with
    | form f => exact .form f
    | builtin b => exact .builtin b
    | host f => exact .host f
    | closure formals p s => exact .closure formals (h.admits p) (h.captures.mpr rfl)
    | template formals p => exact .template formals (h.admits p)
    | embedded e => exact .embedded e

/-- Values are compared for equality. -/
theorem IsExact.values_iff (h : c.IsExact) {v v' : Value E} : c.Values v v' ↔ v = v' := by
  constructor
  · exact h.isFaithful.eq_of_values
  · intro hv
    subst hv
    cases v with
    | bool b => exact .bool b
    | int n => exact .int n
    | float x => exact .float x
    | complex z => exact .complex z
    | symbol text => exact .symbol text
    | empty => exact .empty
    | function f => exact .function (h.functions_iff.mpr rfl)
    | object o => exact .object (h.objects.mpr rfl)

/-- Every payload corresponds to itself. -/
theorem IsExact.payloads_refl (h : c.IsExact) (r : Foreign E) : c.Payloads r r := by
  cases r with
  | bool b => exact .bool b
  | int64 n => exact .int64 n
  | int32 n => exact .int32 n
  | word32 n => exact .word32 n
  | float x => exact .float x
  | single x => exact .single x
  | complex z => exact .complex z
  | text s => exact .text s
  | fixedText s => exact .fixedText s
  | unit => exact .unit
  | function f => exact .function (h.functions_iff.mpr rfl)
  | object o => exact .object (h.objects.mpr rfl)
  | boxed v => exact .boxed (h.values_iff.mpr rfl)
  | unclaimed => exact .unclaimed

/-- Any operands correspond to themselves. -/
theorem IsExact.operands_refl (h : c.IsExact) (operands : List (Operand E)) :
    List.Forall₂ c.Operands operands operands := by
  refine List.forall₂_same.mpr fun o _ => ?_
  cases o with
  | value v => exact .value (h.values_iff.mpr rfl)
  | program p => exact .program (h.admits p)
  | raw r => exact .raw (h.payloads_refl r)

/-- Bindings are compared for equality. -/
theorem IsExact.bindings_iff (h : c.IsExact) {entries entries' : List (String × Value E)} :
    List.Forall₂ c.Bindings entries entries' ↔ entries = entries' := by
  have hbindings : c.Bindings = Eq := by
    funext entry entry'
    rw [Bindings, h.values_iff, Prod.ext_iff]
  rw [hbindings, List.forall₂_eq_eq_eq]

end Correspondence

end FlatLisp
