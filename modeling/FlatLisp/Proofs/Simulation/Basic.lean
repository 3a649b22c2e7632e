import FlatLisp.Proofs.Simulation.Correspondence

/-!
# Simulations

A simulation is a correspondence that every primitive of the evaluator respects: reading and binding
names, new scopes, new numbers, printing, loading and failing. The fields below are all that has to
be checked; the other modules here derive from them that whole evaluations correspond.

Functions of the embedder are not known. They act only through their caller if no exact simulation,
which compares data for equality, can tell them apart (`Embedding.ActsThroughCaller`). They are
parametric if no simulation at all can (`Embedding.IsParametric`).
-/

namespace FlatLisp

/-- A correspondence that the primitives of evaluation respect. -/
structure Simulation (E : Type) extends Correspondence E where
  ids_unique {a a' b b' : Nat} (ha : Ids a a') (hb : Ids b b') : a = b ↔ a' = b'
  objects_ids {o o' : Object E} (h : Objects o o') : Ids o.id o'.id
  objects_text {o o' : Object E} (h : Objects o o') : o.text = o'.text
  objects_plain {a a' : Nat} (h : Ids a a') (text : String) :
    Objects ⟨a, text, none⟩ ⟨a', text, none⟩
  objects_snapshot {a a' : Nat} {entries entries' : List (String × Value E)} (h : Ids a a')
    (he : List.Forall₂ toCorrespondence.Bindings entries entries') :
    Objects (.ofBindings a entries) (.ofBindings a' entries')
  admits_split {p q : Program} (hp : Admits p) (hq : q ∈ p.split) : Admits q
  admits_substitute {p : Program} {formals : List String} {ps : List Program} (hp : Admits p)
    (hps : ∀ q ∈ ps, Admits q) : Admits (p.substitute ((formals.map Token.word).zip ps))
  captures_of_scopes {s s' : ScopeId} (h : Scopes s s') : Captures s s'
  fail {e : Error} {w w' : World E} (he : e.IsOrdinary) (hw : Worlds w w') : Failures e w e w'
  malformed {p : Program} {w w' : World E} (report : ParseError) (hp : Admits p)
    (hv : p.isValid = false) (hw : Worlds w w') :
    Failures (.malformedProgram report) w (.malformedProgram report) w'
  newId : toCorrespondence.Runs Ids EvalM.newId EvalM.newId
  print (text : String) : toCorrespondence.Runs Eq (EvalM.print text) (EvalM.print text)
  bind {s s' : ScopeId} {v v' : Value E} (name : String) (hs : Scopes s s')
    (hv : toCorrespondence.Values v v') :
    toCorrespondence.Runs Eq (EvalM.bind s name v) (EvalM.bind s' name v')
  child {s s' : ScopeId} (h : Captures s s') :
    toCorrespondence.Runs Scopes (EvalM.child s) (EvalM.child s')
  session {s s' : ScopeId} (h : Captures s s') :
    toCorrespondence.Runs (fun _ _ => True) (EvalM.session s) (EvalM.session s')
  source {s s' : ScopeId} (path : String) (h : Scopes s s') :
    toCorrespondence.Runs (fun p p' => p = p' ∧ Admits p) (Form.loadSource s path)
      (Form.loadSource s' path)
  lookup {s s' : ScopeId} (name : String) (h : Scopes s s') :
    toCorrespondence.Runs toCorrespondence.Values (EvalM.lookup s name) (EvalM.lookup s' name)
  bindings {s s' : ScopeId} (h : Scopes s s') :
    toCorrespondence.Runs (List.Forall₂ toCorrespondence.Bindings) (EvalM.bindings s)
      (EvalM.bindings s')
  hasLocal {s s' : ScopeId} {w w' : World E} (name : String) (h : Scopes s s')
    (hw : Worlds w w') : w.hasLocal s name = w'.hasLocal s' name
  isRoot {s s' : ScopeId} {w w' : World E} (h : Scopes s s') (hw : Worlds w w') :
    w.isRoot s = w'.isRoot s'

namespace Simulation

variable {E : Type}

/-- A simulation of runs on equal data, in which every failure may be reported. -/
structure IsExact (sim : Simulation E) : Prop extends sim.toCorrespondence.IsExact where
  fail (e : Error) {w w' : World E} (hw : sim.Worlds w w') : sim.Failures e w e w'

end Simulation

/-- Functions of the embedder do nothing but through the caller that they receive: runs that offer
them the same data stay alike. -/
def Embedding.ActsThroughCaller (E : Type) [Embedding E] : Prop :=
  ∀ sim : Simulation E, sim.IsExact → sim.RespectedByEmbedding

/-- Functions of the embedder moreover make no data of their own that other runs could lack: they
pass on the programs, functions and objects that they are given. -/
def Embedding.IsParametric (E : Type) [Embedding E] : Prop :=
  ∀ sim : Simulation E, sim.RespectedByEmbedding

/-- What no simulation tells apart, no exact one does. -/
theorem Embedding.IsParametric.actsThroughCaller {E : Type} [Embedding E]
    (h : IsParametric E) : ActsThroughCaller E :=
  fun sim _ => h sim

/-- Without functions of the embedder there is nothing to tell apart. -/
theorem Embedding.isParametric_empty : IsParametric Empty :=
  fun _ e => e.elim

namespace Simulation

variable {E : Type} (sim : Simulation E) {α β : Type} {A : α → β → Prop}

/-- An ordinary failure ends corresponding runs in the same way. -/
theorem runs_throw {e : Error} (he : e.IsOrdinary) :
    sim.Runs A (throw e : EvalM E α) (throw e : EvalM E β) :=
  fun _ _ hw => .failed (sim.fail he hw)

/-- Corresponding results that do not depend on the world. -/
theorem runs_ofExcept {r : Except Error α} {r' : Except Error β} (h : Correspondence.Answers A r r') :
    sim.Runs A (EvalM.ofExcept r) (EvalM.ofExcept r') := by
  intro w w' hw
  cases h with
  | ok h => exact .ok h hw
  | error he => exact .failed (sim.fail he hw)

/-! ## Values -/

variable {v v' u u' : Value E}

/-- Corresponding values have the same text. -/
theorem values_render (h : sim.Values v v') : v.render = v'.render := by
  cases h with
  | function h => exact congrArg (Option.getD · _) h.label
  | object h => exact sim.objects_text h
  | _ => rfl

/-- Corresponding values are of the same kind. -/
theorem values_kind (h : sim.Values v v') : v.kind = v'.kind := by
  cases h <;> rfl

/-- Corresponding values are the same number, if any. -/
theorem values_number? (h : sim.Values v v') : v.number? = v'.number? := by
  cases h <;> rfl

/-- Corresponding values count as true together. -/
theorem values_isTruthy (h : sim.Values v v') : v.isTruthy = v'.isTruthy := by
  cases h <;> rfl

/-- Equality of the language does not change from one run to the other. -/
theorem values_same (h : sim.Values v v') (hu : sim.Values u u') : v.same u = v'.same u' := by
  cases h with
  | function h =>
    cases hu with
    | function hu =>
      simp only [Value.same]
      rw [Bool.eq_iff_iff, beq_iff_eq, beq_iff_eq, sim.ids_unique h.ids hu.ids]
    | _ => rfl
  | object h =>
    cases hu with
    | object hu =>
      simp only [Value.same]
      rw [Bool.eq_iff_iff, beq_iff_eq, beq_iff_eq,
        sim.ids_unique (sim.objects_ids h) (sim.objects_ids hu)]
    | _ => rfl
  | _ => cases hu <;> rfl

/-- A kind accepts corresponding values together. -/
theorem values_accepts (kind : Kind) (h : sim.Values v v') : kind.accepts v = kind.accepts v' := by
  unfold Kind.accepts
  rw [sim.values_number? h, sim.values_kind h]

/-- A number is the same value in both runs. -/
theorem values_ofNumber (n : Number) : sim.Values (.ofNumber n) (.ofNumber n) := by
  cases n with
  | int n => exact .int n
  | float x => exact .float x
  | complex z => exact .complex z

/-- The number that a word spells is the same value in both runs. -/
theorem values_numeric? {cs : List Char} (h : Value.numeric? cs = some v) : sim.Values v v := by
  unfold Value.numeric? at h
  split at h
  · cases h
    exact .int _
  · split at h
    · cases h
      exact .float _
    · obtain ⟨z, -, rfl⟩ := Option.map_eq_some_iff.mp h
      exact .complex z

/-- A literal is the same value in both runs. -/
theorem values_literal? {word : String} (h : Value.literal? word = some v) : sim.Values v v := by
  unfold Value.literal? at h
  split at h
  · cases h
    exact .bool true
  · split at h
    · cases h
      exact .bool false
    · split at h
      · exact sim.values_numeric? h
      · cases h

/-! ## Payloads -/

/-- Corresponding values have corresponding payloads. -/
theorem payloads_toForeign (h : sim.Values v v') : sim.Payloads v.toForeign v'.toForeign := by
  cases h with
  | bool b => exact .bool b
  | int n => exact .int64 n
  | float x => exact .float x
  | complex z => exact .complex z
  | symbol text => exact .text text
  | empty => exact .unit
  | function h => exact .function h
  | object h => exact .object h

/-- Corresponding payloads become corresponding values. -/
theorem values_ensure {r r' : Foreign E} {a a' : Nat} (ha : sim.Ids a a')
    (h : sim.Payloads r r') : sim.Values (r.ensure a) (r'.ensure a') := by
  cases h with
  | bool b => exact .bool b
  | int64 n => exact .int n
  | int32 n => exact .int _
  | word32 n => exact .int _
  | float x => exact .float x
  | single x => exact .float _
  | complex z => exact .complex z
  | text s => exact .symbol s
  | fixedText s => exact .symbol s
  | unit => exact .empty
  | function h => exact .function h
  | object h => exact .object h
  | boxed h => exact h
  | unclaimed => exact .object (sim.objects_plain ha _)

end Simulation

end FlatLisp
