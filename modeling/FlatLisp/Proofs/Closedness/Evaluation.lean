import FlatLisp.Proofs.Closedness.Basic
import FlatLisp.Session

/-!
# Evaluation in closed worlds

Every part of evaluation keeps worlds closed: signatures and parameters pass on what they are given,
functions make nothing of parts that do not exist, and closures run in scopes that were made for
them. So a session that starts with a host whose functions exist stays closed, whatever it evaluates.
-/

namespace FlatLisp

open Correspondence

variable {E : Type} {α : Type} {w : World E}

/-! ## Operands -/

/-- A computation whose answers are known to correspond to themselves. -/
theorem keeps_ofAnswers {A : World E → α → α → Prop} {r : Except Error α}
    (h : ∀ v, w.Grows v → Answers (A v) r r) :
    Keeps w (fun v a => A v a a) (EvalM.ofExcept r) := by
  refine keeps_ofExcept fun a v hok hgrows => ?_
  have hanswers := h v hgrows
  rw [hok] at hanswers
  cases hanswers with
  | ok ha => exact ha

/-- A signature passes on operands that exist. -/
theorem keeps_adapt (signature : Signature) {operands : List (Operand E)}
    (h : w.KnowsAll operands) :
    Keeps w World.KnowsAll (EvalM.ofExcept (signature.adapt operands)) :=
  keeps_ofAnswers (A := fun v => List.Forall₂ v.known.Operands) fun v hgrows =>
    v.knownSimulation.answers_adapt signature (hgrows.refines.operands h)

/-- A parameter reads content that exists. -/
theorem keeps_read (type : ParamType) (position : Nat) {o : Operand E} (h : w.known.Operands o o) :
    Keeps w (fun v a => v.known.Carriers type a a) (type.read o position) := by
  cases h with
  | value h =>
    rw [ParamType.read_value]
    exact keeps_ofAnswers fun v hgrows => v.knownSimulation.answers_require type position _
      (v.knownSimulation.rel_ofValue? type (hgrows.refines.values h))
  | program h =>
    rw [ParamType.read_program]
    exact keeps_ofAnswers fun v _ => v.knownSimulation.answers_require type position _
      (v.knownSimulation.rel_ofProgram? type trivial)
  | raw h =>
    rw [ParamType.read_raw]
    refine keeps_bind keeps_newId fun v a hgrows ha => keeps_ofAnswers fun u hu => ?_
    exact u.knownSimulation.answers_require type position _
      (u.knownSimulation.rel_ofForeign? type (hu.refines.ids ha)
        ((hgrows.trans hu).refines.payloads h))

/-- Parameters of one type read content that exists. -/
theorem keeps_readRest (type : ParamType) (position : Nat) {operands : List (Operand E)}
    (h : w.KnowsAll operands) :
    Keeps w (fun v as => List.Forall₂ (v.known.Carriers type) as as)
      (Args.readRest type position operands) := by
  induction operands generalizing w position with
  | nil => exact keeps_pure fun _ _ => .nil
  | cons o operands ih =>
    obtain ⟨ho, hrest⟩ := List.forall₂_cons.mp h
    refine keeps_bind (keeps_read type position ho) fun v a hgrows ha => ?_
    refine keeps_bind (ih (position + 1) (hgrows.refines.operands hrest)) fun u as hu has => ?_
    refine keeps_pure fun x hx => .cons ((hu.trans hx).refines.carriers ha) ?_
    exact has.imp fun _ _ hcarrier => hx.refines.carriers hcarrier

/-- Reading the arguments of a function keeps worlds closed. -/
theorem keeps_readFrom (missing : Error) (types : List ParamType) (rest : Option ParamType)
    (position : Nat) {operands : List (Operand E)} (h : w.KnowsAll operands) :
    Keeps w (fun _ _ => True) (Args.readFrom missing types rest position operands) := by
  induction types generalizing w position operands with
  | nil =>
    cases rest with
    | none => exact keeps_pure fun _ _ => trivial
    | some type => exact (keeps_readRest type position h).mono fun _ _ _ => trivial
  | cons type types ih =>
    cases operands with
    | nil => exact keeps_throw missing
    | cons o operands =>
      obtain ⟨ho, hrest⟩ := List.forall₂_cons.mp h
      refine keeps_bind (keeps_read type position ho) fun v _ hgrows _ => ?_
      exact keeps_bind (ih (position + 1) (hgrows.refines.operands hrest)) fun _ _ _ _ =>
        keeps_pure fun _ _ => trivial

/-! ## Calls -/

/-- A computation whose answers are flat. -/
theorem keeps_map {γ : Type} (r : Except Error γ) {f : γ → Value E}
    (hf : ∀ v a, World.Knows v (f a)) : Keeps w World.Knows (EvalM.ofExcept (r.map f)) := by
  refine keeps_ofExcept fun u v hok _ => ?_
  cases r with
  | error e => cases hok
  | ok a =>
    cases hok
    exact hf v a

/-- The results of builtin operations are flat. -/
theorem keeps_builtin (b : Builtin) (caller : Caller E) (args : Args E b.typed.params b.typed.rest) :
    Keeps w World.Knows (b.typed.run caller args) := by
  cases b with
  | add | mul | sub | div | floorDiv | modulo | power | max | min =>
    exact keeps_map _ fun v n => v.knownSimulation.values_ofNumber n
  | less | lessEqual | greater | greaterEqual => exact keeps_map _ fun _ b => .bool b
  | equal | notEqual | not | and | or =>
    refine keeps_ofExcept fun u v hok _ => ?_
    cases hok
    exact .bool _
  | print => exact keeps_bind (keeps_print _) fun _ _ _ _ => keeps_pure fun _ _ => .empty

/-- The results of host functions exist. -/
theorem keeps_host (f : HostFunction) (caller : Caller E) {operands : List (Operand E)}
    (h : w.KnowsAll operands) : Keeps w World.Knows (f.native.invoke caller operands) := by
  have hpayloads : ∀ v, w.Grows v → List.Forall₂ v.known.Payloads
      (operands.map Operand.toForeign) (operands.map Operand.toForeign) := by
    intro v hgrows
    rw [List.forall₂_map_left_iff, List.forall₂_map_right_iff]
    exact (hgrows.refines.operands h).imp fun _ _ ho => v.knownSimulation.payloads_operand ho
  have hrun := keeps_ofAnswers fun v hgrows =>
    v.knownSimulation.answers_host f (hpayloads v hgrows)
  refine keeps_bind hrun fun v r _ hr => keeps_bind keeps_newId fun u a hu ha => ?_
  exact keeps_pure fun x hx => x.knownSimulation.values_ensure (hx.refines.ids ha)
    ((hu.trans hx).refines.payloads hr)

/-- A new function exists if its body does. -/
theorem keeps_makeFunction (keyword : String) (parameters body : Program)
    {make : List String → Body E}
    (h : ∀ v, w.Grows v → ∀ formals, v.known.Bodies (make formals) (make formals)) :
    Keeps w World.Knows (Form.makeFunction keyword parameters body make) := by
  refine keeps_bind (Q := fun _ _ => True) (keeps_ofExcept fun _ _ _ _ => trivial) ?_
  intro v formals hgrows _
  refine keeps_bind keeps_newId fun u a hu ha => keeps_pure fun x hx => ?_
  exact .function ⟨hx.refines.ids ha, rfl, h x (hgrows.trans (hu.trans hx)) formals⟩

/-- Loading a source changes nothing that is bound. -/
theorem keeps_loadSource (s : ScopeId) (path : String) :
    Keeps w (fun _ _ => True) (Form.loadSource s path) :=
  keeps_bind (keeps_session s) fun _ _ _ _ =>
    keeps_bind (keeps_load _ path) fun _ _ _ _ => keeps_ofExcept fun _ _ _ _ => trivial

variable {eval : ScopeId → Program → EvalM E (Value E)}

/-- Evaluators that keep worlds closed. -/
def KeepsEvery (eval : ScopeId → Program → EvalM E (Value E)) : Prop :=
  ∀ w s p, Keeps w World.Knows (eval s p)

/-- Special forms keep worlds closed if evaluation does. -/
theorem keeps_form (f : Form) {caller : Caller E} (he : KeepsEvery caller.evaluate)
    (hs : caller.scope < w.scopes.size) (args : Args E f.typed.params f.typed.rest) :
    Keeps w World.Knows (f.typed.run caller args) := by
  cases f with
  | define =>
    obtain ⟨name, form, _⟩ := args
    simp only [Form.typed]
    cases symbolName? name with
    | none => exact keeps_throw _
    | some symbol =>
      refine keeps_bind (he w caller.scope form) fun v u _ hu => ?_
      exact keeps_bind (keeps_bindName caller.scope symbol hu) fun x _ hx _ =>
        keeps_pure fun y hy => (hx.trans hy).refines.values hu
  | branch =>
    obtain ⟨predicate, consequent, alternative, _⟩ := args
    exact keeps_bind (he w caller.scope predicate) fun v _ _ _ => he v caller.scope _
  | lambda =>
    obtain ⟨parameters, body, _⟩ := args
    refine keeps_makeFunction "lambda" parameters body fun v hgrows formals => ?_
    exact .closure formals trivial ⟨rfl, Nat.lt_of_lt_of_le hs hgrows.scopes⟩
  | template =>
    obtain ⟨parameters, body, _⟩ := args
    exact keeps_makeFunction "macro" parameters body fun _ _ formals => .template formals trivial
  | load =>
    obtain ⟨path, _⟩ := args
    obtain _ | ⟨token, _ | ⟨_, _⟩⟩ := path
    · exact keeps_throw _
    · exact keeps_bind (keeps_loadSource caller.scope token.text) fun v p _ _ => he v caller.scope p
    · exact keeps_throw _
  | symbols =>
    refine keeps_bind (keeps_bindings caller.scope) fun v _ _ _ => ?_
    exact keeps_bind keeps_newId fun u a _ ha => keeps_pure fun x hx =>
      .object ⟨rfl, (hx.refines.ids ha).2⟩

/-- What exists may be bound to names one after the other. -/
theorem keeps_bindAll (s : ScopeId) {entries : List (String × Value E)}
    (h : ∀ entry ∈ entries, w.Knows entry.2) : Keeps w (fun _ _ => True) (bindAll s entries) := by
  induction entries generalizing w with
  | nil => exact keeps_pure fun _ _ => trivial
  | cons entry entries ih =>
    obtain ⟨hentry, hrest⟩ := List.forall_mem_cons.mp h
    refine keeps_bind (keeps_bindName s entry.1 hentry) fun v _ hgrows _ => ih fun other hother => ?_
    exact hgrows.refines.values (hrest other hother)

/-- A closure body runs in a new scope that binds what exists. -/
theorem keeps_closure [Embedding E] (formals : List String) (p : Program) (t : ScopeId)
    {caller : Caller E} (he : KeepsEvery caller.evaluate) {operands : List (Operand E)}
    (h : w.KnowsAll operands) :
    Keeps w World.Knows (Body.run caller operands (.closure formals p t)) := by
  refine keeps_bind (keeps_session t) fun v _ hv _ => ?_
  refine keeps_bind (keeps_child t) fun u inner hu _ => ?_
  refine keeps_bind (keeps_readRest .value 1 ((hv.trans hu).refines.operands h)) fun x vs _ hvs => ?_
  refine keeps_bind (keeps_bindAll inner fun entry hentry => ?_) fun y _ _ _ => he y inner p
  exact List.forall₂_same.mp hvs entry.2 (List.of_mem_zip hentry).2

/-- Bodies keep worlds closed if evaluation does. -/
theorem keeps_body {caller : Caller Empty} {w : World Empty} (he : KeepsEvery caller.evaluate)
    (hs : caller.scope < w.scopes.size) {operands : List (Operand Empty)}
    (h : w.KnowsAll operands) (body : Body Empty) :
    Keeps w World.Knows (body.run caller operands) := by
  cases body with
  | form f =>
    exact keeps_bind (keeps_readFrom _ _ _ 1 h) fun v args hgrows _ =>
      keeps_form f he (Nat.lt_of_lt_of_le hs hgrows.scopes) args
  | builtin b =>
    exact keeps_bind (keeps_readFrom _ _ _ 1 h) fun _ args _ _ => keeps_builtin b caller args
  | host f => exact keeps_host f caller h
  | closure formals p t => exact keeps_closure formals p t he h
  | template formals p => exact keeps_bind (keeps_readRest .program 1 h) fun v _ _ _ => he v _ _
  | embedded e => exact e.elim

/-! ## Evaluation -/

section

variable {w : World Empty} {eval : ScopeId → Program → EvalM Empty (Value Empty)} {s : ScopeId}

/-- Calls keep worlds closed if evaluation does. -/
theorem keeps_callWithin (he : KeepsEvery eval) (hs : s < w.scopes.size) (nesting : Nat)
    (f : Function Empty) {operands : List (Operand Empty)} (h : w.KnowsAll operands) :
    Keeps w World.Knows (f.callWithin eval s nesting operands) := by
  cases nesting with
  | zero => exact keeps_throw _
  | succ nesting =>
    exact keeps_bind (keeps_adapt f.signature h) fun v _ hgrows hadapted =>
      keeps_body he (Nat.lt_of_lt_of_le hs hgrows.scopes) hadapted f.body

/-- The values of forms exist. -/
theorem keeps_evaluateAll (he : KeepsEvery eval) (forms : List Program) :
    Keeps w World.KnowsAll (evaluateAll eval s forms) := by
  induction forms generalizing w with
  | nil => exact keeps_pure fun _ _ => .nil
  | cons form forms ih =>
    refine keeps_bind (he w s form) fun v u _ hu => keeps_bind ih fun x operands hx hoperands => ?_
    exact keeps_pure fun y hy => .cons (.value ((hx.trans hy).refines.values hu))
      (hy.refines.operands hoperands)

/-- The value of the last form exists. -/
theorem keeps_evaluateSequence (he : KeepsEvery eval) {u : Value Empty} (hu : w.Knows u)
    (forms : List Program) : Keeps w World.Knows (evaluateSequence eval s u forms) := by
  induction forms generalizing w u with
  | nil => exact keeps_pure fun v hgrows => hgrows.refines.values hu
  | cons form forms ih => exact keeps_bind (he w s form) fun v _ _ hv => ih hv

/-- An operator stands for a value that exists. -/
theorem keeps_resolveOperator {u : Value Empty} (hu : w.Knows u) :
    Keeps w World.Knows (resolveOperator s u) := by
  cases u with
  | symbol name => exact keeps_lookup s name
  | _ => exact keeps_pure fun v hgrows => hgrows.refines.values hu

/-- A single token stands for a value that exists. -/
theorem keeps_evaluateToken (token : Token) : Keeps w World.Knows (evaluateToken s token) := by
  cases token with
  | left => exact keeps_throw _
  | right => exact keeps_throw _
  | word word =>
    simp only [evaluateToken]
    cases hliteral : Value.literal? word with
    | some u => exact keeps_pure fun v _ => v.knownSimulation.values_literal? hliteral
    | none => exact keeps_lookup s word

/-- Combinations keep worlds closed if evaluation does. -/
theorem keeps_evaluateCombination (he : KeepsEvery eval) (hs : s < w.scopes.size)
    (forms : List Program) : Keeps w World.Knows (evaluateCombination eval s forms) := by
  cases forms with
  | nil => exact keeps_throw _
  | cons operator operands =>
    refine keeps_bind (he w s operator) fun v u hv hu => ?_
    refine keeps_bind (keeps_resolveOperator hu) fun x u' hx _ => ?_
    cases u' with
    | function f =>
      have hcall : ∀ y operands, x.Grows y → y.KnowsAll operands →
          Keeps y World.Knows (f.callWithin eval s (Embedding.directCalls Empty + 1) operands) := by
        intro y operands hy hoperands
        have hgrows := hv.trans (hx.trans hy)
        exact keeps_callWithin he (Nat.lt_of_lt_of_le hs hgrows.scopes) _ f hoperands
      dsimp only
      split
      · have hprograms : ∀ y : World Empty, y.KnowsAll (operands.map Operand.program) := by
          intro y
          refine List.forall₂_same.mpr fun o ho => ?_
          obtain ⟨p, -, rfl⟩ := List.mem_map.mp ho
          exact .program trivial
        exact keeps_bind (keeps_pure fun y _ => hprograms y) hcall
      · exact keeps_bind (keeps_evaluateAll he operands) hcall
    | _ => exact keeps_throw _

/-- One evaluation keeps worlds closed if the evaluations nested in it do. -/
theorem keeps_step (he : KeepsEvery eval) (hs : s < w.scopes.size) (p : Program) :
    Keeps w World.Knows (step eval s p) := by
  match p with
  | [] => exact keeps_pure fun _ _ => .empty
  | [token] => exact keeps_evaluateToken token
  | a :: b :: rest =>
    simp only [step]
    split
    · exact keeps_evaluateCombination he hs _
    · refine keeps_bind (Q := fun _ _ => True) (keeps_ofExcept fun _ _ _ _ => trivial) ?_
      exact fun v _ _ _ => keeps_evaluateSequence he .empty _

/-- Evaluation keeps worlds closed, with any fuel. -/
theorem keepsEvery_evaluateWithin (fuel : Nat) :
    KeepsEvery (evaluateWithin fuel : ScopeId → Program → EvalM Empty (Value Empty)) := by
  have hdepth : ∀ (v : World Empty) u session depth, v.Knows u → (v.setDepth session depth).Knows u := by
    intro v u session depth hu
    have hgrows : v.Grows (v.setDepth session depth) := ⟨Nat.le_refl _, Nat.le_refl _⟩
    exact hgrows.refines.values hu
  induction fuel with
  | zero => exact fun w s p => keeps_nested (fun _ _ _ => keeps_throw _) hdepth
  | succ fuel ih => exact fun w s p => keeps_nested (fun v _ hs => keeps_step ih hs p) hdepth

/-- Evaluation keeps worlds closed, and its value exists in the world that it leaves. -/
theorem keeps_evaluate (s : ScopeId) (p : Program) : Keeps w World.Knows (evaluate s p) :=
  fun v hgrows hclosed => keepsEvery_evaluateWithin v.budget w s p v hgrows hclosed

/-- Reading a text and evaluating it keeps worlds closed. -/
theorem keeps_interpret (s : ScopeId) (text : String) : Keeps w World.Knows (interpret s text) := by
  refine keeps_bind (keeps_session s) fun v session _ _ => ?_
  refine keeps_bind (Q := fun _ _ => True) (keeps_ofExcept fun _ _ _ _ => trivial) ?_
  exact fun u p _ _ => keeps_evaluate s p

/-- Calls from scopes that exist keep worlds closed. -/
theorem keeps_call (hs : s < w.scopes.size) (f : Function Empty) {operands : List (Operand Empty)}
    (h : w.KnowsAll operands) : Keeps w World.Knows (f.call s operands) :=
  fun v hgrows hclosed => keeps_callWithin (keepsEvery_evaluateWithin v.budget) hs _ f h v
    hgrows hclosed

/-- Calls of closures keep worlds closed, from wherever they are called. -/
theorem keeps_call_closure (id : Nat) (label : Option String) (formals : List String)
    (p : Program) (t : ScopeId) {operands : List (Operand Empty)} (h : w.KnowsAll operands) :
    Keeps w World.Knows (Function.call ⟨id, label, .closure formals p t⟩ s operands) := by
  intro v hgrows hclosed
  refine keeps_bind (keeps_adapt (Signature.untyped formals.length) h) ?_ v hgrows hclosed
  exact fun u _ _ hadapted =>
    keeps_closure formals p t (keepsEvery_evaluateWithin v.budget) hadapted

end

/-! ## Starts of sessions -/

/-- A new function is bound under each of its names. -/
theorem keeps_installNamed (s : ScopeId) (names : List String) {body : Body E}
    (h : ∀ v, w.Grows v → v.known.Bodies body body) :
    Keeps w (fun _ _ => True) (installNamed s names body) := by
  refine keeps_bind keeps_newId fun v a hgrows ha => keeps_bindAll s fun entry hentry => ?_
  obtain ⟨name, -, rfl⟩ := List.mem_map.mp hentry
  exact .function ⟨ha, rfl, h v hgrows⟩

/-- The special forms are bound. -/
theorem keeps_installForms (s : ScopeId) (forms : List Form) :
    Keeps w (fun _ _ => True) (installForms s forms) := by
  induction forms generalizing w with
  | nil => exact keeps_pure fun _ _ => trivial
  | cons form forms ih =>
    exact keeps_bind (keeps_installNamed s form.names fun _ _ => .form form) fun _ _ _ _ => ih

/-- The builtin operations are bound. -/
theorem keeps_installBuiltins (s : ScopeId) (bs : List Builtin) :
    Keeps w (fun _ _ => True) (installBuiltins s bs) := by
  induction bs generalizing w with
  | nil => exact keeps_pure fun _ _ => trivial
  | cons b bs ih =>
    exact keeps_bind (keeps_installNamed s [b.name] fun _ _ => .builtin b) fun _ _ _ _ => ih

/-- A session may start with a host whose functions exist. -/
theorem World.IsClosed.openBare (h : w.IsClosed) {host : Host E}
    (hhost : ∀ f, host.Offers f → w.known.Functions f f) (loader : Loader) (comments : Bool)
    (maxDepth : Nat) : (openBare host loader comments maxDepth w).2.IsClosed := by
  have hpushed : (w.pushScope ⟨[], none, w.sessions.size⟩).1.IsClosed := h.pushScope rfl nofun
  have hgrows := w.grows_pushScope ⟨[], none, w.sessions.size⟩
  refine ⟨hpushed.tables, fun {session} hs f hf => ?_, hpushed.ordered⟩
  rcases Array.mem_push.mp hs with hold | rfl
  · exact hpushed.hosts hold hf
  · exact hgrows.refines.functions (hhost f hf)

/-- A session may start with the special forms and the builtin operations. -/
theorem World.IsClosed.openRoot (h : w.IsClosed) {host : Host E}
    (hhost : ∀ f, host.Offers f → w.known.Functions f f) (loader : Loader) (comments : Bool)
    (maxDepth : Nat) : (openRoot host loader comments maxDepth w).2.IsClosed := by
  have hbare := h.openBare hhost loader comments maxDepth
  have hinstalled : ∀ (v : World E) s, Keeps v (fun _ _ => True)
      (installForms s Form.all >>= fun _ => installBuiltins s Builtin.all >>= fun _ => pure s) :=
    fun _ s => keeps_bind (keeps_installForms s Form.all) fun _ _ _ _ =>
      keeps_bind (keeps_installBuiltins s Builtin.all) fun _ _ _ _ => keeps_pure fun _ _ => trivial
  have hstart : FlatLisp.openBare host loader comments maxDepth w =
      (.ok w.scopes.size, (FlatLisp.openBare host loader comments maxDepth w).2) := rfl
  unfold FlatLisp.openRoot
  rw [run_bind_ok _ hstart]
  exact (hinstalled _ _ _ (.refl _) hbare).closed

end FlatLisp
