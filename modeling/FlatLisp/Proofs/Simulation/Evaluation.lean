import FlatLisp.Proofs.Parentheses
import FlatLisp.Proofs.Simulation.Primitive

/-!
# Simulated evaluation

One evaluation corresponds to another one as soon as the evaluations nested in it do
(`runs_step`). Depth limits are not part of this: `evaluators_evaluateWithin` asks of a simulation
that it also survives one more level of nesting, and then follows by induction on the fuel.
-/

namespace FlatLisp.Simulation

open FlatLisp.Correspondence

variable {E : Type} {sim : Simulation E} {caller caller' : Caller E}
  {operands operands' : List (Operand E)} {s s' : ScopeId}

/-! ## Special forms -/

/-- A new function over corresponding bodies, or the same complaint about its formals. -/
theorem runs_makeFunction (keyword : String) (parameters body : Program)
    {make make' : List String → Body E} (h : ∀ formals, sim.Bodies (make formals) (make' formals)) :
    sim.Runs sim.Values (Form.makeFunction keyword parameters body make)
      (Form.makeFunction keyword parameters body make') := by
  have hformals : Answers Eq ((parameterList parameters).mapError Error.invalidFormals)
      ((parameterList parameters).mapError Error.invalidFormals) := by
    cases parameterList parameters with
    | ok formals => exact .ok rfl
    | error fault => exact .error trivial
  refine runs_bind (sim.runs_ofExcept hformals) fun formals formals' heq => ?_
  subst heq
  exact runs_bind sim.newId fun _ _ ha => runs_pure (.function ⟨ha, rfl, h formals⟩)

/-- Definitions bind corresponding values. -/
theorem respects_define : sim.Respects Form.define.typed := by
  intro caller caller' args args' hc ha
  obtain ⟨name, form, _⟩ := args
  obtain ⟨_, _, _⟩ := args'
  obtain ⟨⟨rfl, -⟩, ⟨rfl, hform⟩, -⟩ := ha
  simp only [Form.typed]
  cases symbolName? name with
  | none => exact sim.runs_throw trivial
  | some symbol =>
    exact runs_bind (hc.evaluate hc.scope hform) fun _ _ hv =>
      runs_bind (sim.bind symbol hc.scope hv) fun _ _ _ => runs_pure hv

/-- Conditionals take the same branch. -/
theorem respects_branch : sim.Respects Form.branch.typed := by
  intro caller caller' args args' hc ha
  obtain ⟨predicate, consequent, alternative, _⟩ := args
  obtain ⟨_, _, _, _⟩ := args'
  obtain ⟨⟨rfl, hp⟩, ⟨rfl, hq⟩, ⟨rfl, hr⟩, -⟩ := ha
  refine runs_bind (hc.evaluate hc.scope hp) fun v v' hv => ?_
  rw [sim.values_isTruthy hv]
  split
  · exact hc.evaluate hc.scope hq
  · exact hc.evaluate hc.scope hr

/-- Closures capture corresponding scopes. -/
theorem respects_lambda : sim.Respects Form.lambda.typed := by
  intro caller caller' args args' hc ha
  obtain ⟨parameters, body, _⟩ := args
  obtain ⟨_, _, _⟩ := args'
  obtain ⟨⟨rfl, -⟩, ⟨rfl, hbody⟩, -⟩ := ha
  exact runs_makeFunction "lambda" parameters body fun formals =>
    .closure formals hbody (sim.captures_of_scopes hc.scope)

/-- Templates keep the same body. -/
theorem respects_template : sim.Respects Form.template.typed := by
  intro caller caller' args args' hc ha
  obtain ⟨parameters, body, _⟩ := args
  obtain ⟨_, _, _⟩ := args'
  obtain ⟨⟨rfl, -⟩, ⟨rfl, hbody⟩, -⟩ := ha
  exact runs_makeFunction "macro" parameters body fun formals => .template formals hbody

/-- Sources are evaluated in corresponding scopes. -/
theorem respects_load : sim.Respects Form.load.typed := by
  intro caller caller' args args' hc ha
  obtain ⟨path, _⟩ := args
  obtain ⟨_, _⟩ := args'
  obtain ⟨⟨rfl, -⟩, -⟩ := ha
  match path with
  | [] => exact sim.runs_throw trivial
  | [token] =>
    refine runs_bind (sim.source token.text hc.scope) fun p p' hp => ?_
    obtain ⟨rfl, hadmits⟩ := hp
    exact hc.evaluate hc.scope hadmits
  | _ :: _ :: _ => exact sim.runs_throw trivial

/-- Snapshots hold corresponding bindings. -/
theorem respects_symbols : sim.Respects Form.symbols.typed := by
  intro caller caller' _ _ hc _
  exact runs_bind (sim.bindings hc.scope) fun _ _ hentries =>
    runs_bind sim.newId fun _ _ ha => runs_pure (.object (sim.objects_snapshot ha hentries))

/-- Special forms respect every simulation. -/
theorem respects_form (f : Form) : sim.Respects f.typed := by
  cases f with
  | define => exact respects_define
  | branch => exact respects_branch
  | lambda => exact respects_lambda
  | template => exact respects_template
  | load => exact respects_load
  | symbols => exact respects_symbols

/-! ## Forms and tokens -/

/-- Evaluators that do corresponding things in corresponding scopes. -/
def Evaluators (sim : Simulation E) (eval eval' : ScopeId → Program → EvalM E (Value E)) : Prop :=
  ∀ {s s' p}, sim.Scopes s s' → sim.Admits p → sim.Runs sim.Values (eval s p) (eval' s' p)

variable {eval eval' : ScopeId → Program → EvalM E (Value E)}

/-- Forms that may be evaluated have corresponding values. -/
theorem runs_evaluateAll (heval : sim.Evaluators eval eval') (hs : sim.Scopes s s')
    {forms : List Program} (hforms : ∀ q ∈ forms, sim.Admits q) :
    sim.Runs (List.Forall₂ sim.Operands) (evaluateAll eval s forms) (evaluateAll eval' s' forms) := by
  induction forms with
  | nil => exact runs_pure .nil
  | cons form forms ih =>
    obtain ⟨hform, hrest⟩ := List.forall_mem_cons.mp hforms
    exact runs_bind (heval hs hform) fun _ _ hv =>
      runs_bind (ih hrest) fun _ _ hvs => runs_pure (.cons (.value hv) hvs)

/-- Sequences of forms that may be evaluated have corresponding values. -/
theorem runs_evaluateSequence (heval : sim.Evaluators eval eval') (hs : sim.Scopes s s')
    {v v' : Value E} (hv : sim.Values v v') {forms : List Program}
    (hforms : ∀ q ∈ forms, sim.Admits q) :
    sim.Runs sim.Values (evaluateSequence eval s v forms) (evaluateSequence eval' s' v' forms) := by
  induction forms generalizing v v' with
  | nil => exact runs_pure hv
  | cons form forms ih =>
    obtain ⟨hform, hrest⟩ := List.forall_mem_cons.mp hforms
    exact runs_bind (heval hs hform) fun _ _ hv => ih hv hrest

/-- Operators stand for corresponding values. -/
theorem runs_resolveOperator (hs : sim.Scopes s s') {v v' : Value E} (hv : sim.Values v v') :
    sim.Runs sim.Values (resolveOperator s v) (resolveOperator s' v') := by
  cases hv with
  | symbol name => exact sim.lookup name hs
  | bool b => exact runs_pure (.bool b)
  | int n => exact runs_pure (.int n)
  | float x => exact runs_pure (.float x)
  | complex z => exact runs_pure (.complex z)
  | empty => exact runs_pure .empty
  | function h => exact runs_pure (.function h)
  | object h => exact runs_pure (.object h)

/-- Single tokens are evaluated alike. -/
theorem runs_evaluateToken (hs : sim.Scopes s s') {token : Token} (htoken : sim.Admits [token]) :
    sim.Runs sim.Values (evaluateToken s token) (evaluateToken s' token) := by
  cases token with
  | left => exact fun _ _ hw => .failed (sim.malformed _ htoken rfl hw)
  | right => exact fun _ _ hw => .failed (sim.malformed _ htoken rfl hw)
  | word word =>
    simp only [evaluateToken]
    cases hliteral : Value.literal? word with
    | some v => exact runs_pure (sim.values_literal? hliteral)
    | none => exact sim.lookup word hs

/-- The check of a sequence ends alike. -/
theorem runs_validate {p : Program} (hp : sim.Admits p) :
    sim.Runs Eq (EvalM.ofExcept (p.validate.mapError .malformedProgram))
      (EvalM.ofExcept (p.validate.mapError .malformedProgram)) := by
  intro w w' hw
  cases hcheck : p.validate with
  | ok _ => exact .ok rfl hw
  | error report =>
    exact .failed (sim.malformed report hp (Program.isValid_eq_false_of_validate hcheck) hw)

/-! ## Calls -/

/-- Corresponding bindings are made one after the other. -/
theorem runs_bindAll (hs : sim.Scopes s s') {entries entries' : List (String × Value E)}
    (h : List.Forall₂ sim.Bindings entries entries') :
    sim.Runs Eq (bindAll s entries) (bindAll s' entries') := by
  induction h with
  | nil => exact runs_pure rfl
  | @cons entry entry' _ _ hentry _ ih =>
    obtain ⟨name, v⟩ := entry
    obtain ⟨_, v'⟩ := entry'
    obtain ⟨rfl, hv⟩ := hentry
    exact runs_bind (sim.bind name hs hv) fun _ _ _ => ih

/-- The same names with corresponding values make corresponding bindings. -/
theorem forall₂_bindings_zip (names : List String) {vs vs' : List (Value E)}
    (h : List.Forall₂ sim.Values vs vs') :
    List.Forall₂ sim.Bindings (names.zip vs) (names.zip vs') := by
  induction names generalizing vs vs' with
  | nil => exact .nil
  | cons name names ih =>
    cases h with
    | nil => exact .nil
    | cons hv hvs => exact .cons ⟨rfl, hv⟩ (ih hvs)

variable [Embedding E]

/-- A closure body runs in corresponding new scopes, whatever scopes it is called from. -/
theorem runs_closure (formals : List String) {p : Program} {t t' : ScopeId}
    (ht : sim.Captures t t')
    (he : ∀ {s s'}, sim.Scopes s s' →
      sim.Runs sim.Values (caller.evaluate s p) (caller'.evaluate s' p))
    (h : List.Forall₂ sim.Operands operands operands') :
    sim.Runs sim.Values (Body.run caller operands (.closure formals p t))
      (Body.run caller' operands' (.closure formals p t')) :=
  runs_bind (sim.session ht) fun _ _ _ =>
    runs_bind (sim.child ht) fun _ _ hinner =>
      runs_bind (sim.runs_readRest .value 1 h) fun _ _ hvs =>
        runs_bind (runs_bindAll hinner (forall₂_bindings_zip formals hvs)) fun _ _ _ => he hinner

/-- A template is expanded alike in both runs. -/
theorem runs_template (formals : List String) {p : Program} (hp : sim.Admits p)
    (hc : sim.Callers caller caller') (h : List.Forall₂ sim.Operands operands operands') :
    sim.Runs sim.Values (Body.run caller operands (.template formals p))
      (Body.run caller' operands' (.template formals p)) := by
  refine runs_bind (sim.runs_readRest .program 1 h) fun ps ps' hps => ?_
  have heq : ps = ps' := List.forall₂_eq_eq_eq ▸ hps.imp fun _ _ h => h.1
  subst heq
  have hadmits : ∀ q ∈ ps, sim.Admits q := fun q hq => (List.forall₂_same.mp hps q hq).2
  exact hc.evaluate hc.scope (sim.admits_substitute hp hadmits)

/-- Corresponding bodies do corresponding things. -/
theorem runs_body (hE : sim.RespectedByEmbedding) {body body' : Body E}
    (hbody : sim.Bodies body body') (hc : sim.Callers caller caller')
    (h : List.Forall₂ sim.Operands operands operands') :
    sim.Runs sim.Values (body.run caller operands) (body'.run caller' operands') := by
  cases hbody with
  | form f => exact (respects_form f).runs_invoke hc h
  | builtin b => exact (respects_builtin b).runs_invoke hc h
  | host f =>
    exact runs_passThrough caller caller' (fun _ _ hrs => sim.runs_ofExcept (answers_host f hrs)) h
  | closure formals hp ht => exact runs_closure formals ht (fun hs => hc.evaluate hs hp) h
  | template formals hp => exact runs_template formals hp hc h
  | embedded e => exact hE e _ _ _ _ hc h

/-- Corresponding functions have the same calling convention. -/
theorem functions_signature {f f' : Function E} (hf : sim.Functions f f') :
    f.signature = f'.signature := by
  obtain ⟨id, label, body⟩ := f
  obtain ⟨id', label', body'⟩ := f'
  have hbody : sim.Bodies body body' := hf.bodies
  cases hbody <;> rfl

/-- Corresponding functions are called alike. -/
theorem runs_apply (hE : sim.RespectedByEmbedding) {f f' : Function E} (hf : sim.Functions f f')
    (hc : sim.Callers caller caller') (h : List.Forall₂ sim.Operands operands operands') :
    sim.Runs sim.Values (f.apply caller operands) (f'.apply caller' operands') := by
  unfold Function.apply
  rw [functions_signature hf]
  exact runs_bind (sim.runs_ofExcept (sim.answers_adapt _ h)) fun _ _ hadapted =>
    runs_body hE hf.bodies hc hadapted

/-! ## Evaluation -/

/-- Calls with corresponding evaluators, however many functions of the embedder call one another. -/
theorem runs_callWithin (hE : sim.RespectedByEmbedding) (heval : sim.Evaluators eval eval')
    (hs : sim.Scopes s s') (nesting : Nat) {f f' : Function E} (hf : sim.Functions f f')
    (h : List.Forall₂ sim.Operands operands operands') :
    sim.Runs sim.Values (f.callWithin eval s nesting operands)
      (f'.callWithin eval' s' nesting operands') := by
  induction nesting generalizing f f' operands operands' with
  | zero => exact sim.runs_throw trivial
  | succ nesting ih => exact runs_apply hE hf ⟨hs, heval, ih⟩ h

/-- Combinations are evaluated alike. -/
theorem runs_evaluateCombination (hE : sim.RespectedByEmbedding)
    (heval : sim.Evaluators eval eval') (hs : sim.Scopes s s') {forms : List Program}
    (hforms : ∀ q ∈ forms, sim.Admits q) :
    sim.Runs sim.Values (evaluateCombination eval s forms) (evaluateCombination eval' s' forms) := by
  cases forms with
  | nil => exact sim.runs_throw trivial
  | cons operator operands =>
    obtain ⟨hoperator, hoperands⟩ := List.forall_mem_cons.mp hforms
    refine runs_bind (heval hs hoperator) fun _ _ hv =>
      runs_bind (runs_resolveOperator hs hv) fun v v' hv => ?_
    have hmessage : Error.notCallable (v.render ++ " (" ++ v.kind.name ++ ")") =
        Error.notCallable (v'.render ++ " (" ++ v'.kind.name ++ ")") := by
      rw [sim.values_render hv, sim.values_kind hv]
    cases hv with
    | function hf =>
      dsimp only
      rw [functions_signature hf]
      split
      · have hprograms : List.Forall₂ sim.Operands (operands.map Operand.program)
            (operands.map Operand.program) :=
          List.forall₂_map_left_iff.mpr (List.forall₂_map_right_iff.mpr
            (List.forall₂_same.mpr fun q hq => .program (hoperands q hq)))
        exact runs_bind (runs_pure hprograms) fun _ _ h =>
          runs_callWithin hE heval hs _ hf h
      · exact runs_bind (runs_evaluateAll heval hs hoperands) fun _ _ h =>
          runs_callWithin hE heval hs _ hf h
    | object =>
      dsimp only
      rw [hmessage]
      exact sim.runs_throw trivial
    | _ => exact sim.runs_throw trivial

/-- One evaluation corresponds to another one if the evaluations nested in it do. -/
theorem runs_step (hE : sim.RespectedByEmbedding) (heval : sim.Evaluators eval eval')
    (hs : sim.Scopes s s') {p : Program} (hp : sim.Admits p) :
    sim.Runs sim.Values (step eval s p) (step eval' s' p) := by
  have hforms : ∀ q ∈ p.split, sim.Admits q := fun _ hq => sim.admits_split hp hq
  match p with
  | [] => exact runs_pure .empty
  | [token] => exact runs_evaluateToken hs hp
  | a :: b :: rest =>
    simp only [step]
    split
    · exact runs_evaluateCombination hE heval hs hforms
    · exact runs_bind (runs_validate hp) fun _ _ _ => runs_evaluateSequence heval hs .empty hforms

/-- Evaluations with the same fuel correspond if one more level of nesting does no harm. -/
theorem evaluators_evaluateWithin (hE : sim.RespectedByEmbedding)
    (hnested : ∀ {s s'} {m m' : EvalM E (Value E)}, sim.Scopes s s' →
      sim.Runs sim.Values m m' → sim.Runs sim.Values (EvalM.nested s m) (EvalM.nested s' m'))
    (fuel : Nat) : sim.Evaluators (evaluateWithin fuel) (evaluateWithin fuel) := by
  induction fuel with
  | zero => exact fun hs _ => hnested hs (sim.runs_throw trivial)
  | succ fuel ih => exact fun hs hp => hnested hs (runs_step hE ih hs hp)

end FlatLisp.Simulation
