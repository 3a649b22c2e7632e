import FlatLisp.Proofs.Scopes
import FlatLisp.Proofs.Simulation.Evaluation

/-!
# Contracts of single runs

A run that is compared with itself shows what it keeps to: which programs it evaluates, which values
it handles, which scopes it writes to, which worlds it passes through and how it may fail.
`Contract` names these properties, and `Contract.IsKept` lists what the primitives of evaluation have
to keep of them. Then every evaluation keeps to the contract.
-/

namespace FlatLisp

/-- What a single run keeps to. -/
structure Contract (E : Type) where
  /-- Programs that may be evaluated or stored. -/
  Admits : Program → Prop
  /-- Objects that may occur. -/
  Knows : Object E → Prop
  /-- Scopes that evaluation takes place in. -/
  Uses : ScopeId → Prop
  Holds : World E → Prop
  /-- Failures, each with the world that it leaves. -/
  Fails : Error → World E → Prop

namespace Contract

open Correspondence

variable {E : Type} (c : Contract E)

/-- The comparison of a run with itself. -/
def toCorrespondence : Correspondence E where
  Ids := Eq
  Captures := Eq
  Admits := c.Admits
  Objects o o' := o = o' ∧ c.Knows o
  Scopes s s' := s = s' ∧ c.Uses s
  Worlds w w' := w = w' ∧ c.Holds w
  Failures e w e' w' := e = e' ∧ w = w' ∧ c.Fails e w
  Cut _ _ := False

/-- Whether a function keeps to the contract. -/
def Callable (f : Function E) : Prop :=
  c.toCorrespondence.Functions f f

/-- Whether a value keeps to the contract. -/
def Allows (v : Value E) : Prop :=
  c.toCorrespondence.Values v v

/-- The primitives of evaluation keep to the contract. -/
structure IsKept : Prop where
  knows_plain (id : Nat) (text : String) : c.Knows ⟨id, text, none⟩
  knows_snapshot (id : Nat) {entries : List (String × Value E)}
    (h : ∀ entry ∈ entries, c.Allows entry.2) : c.Knows (.ofBindings id entries)
  admits_split {p q : Program} (hp : c.Admits p) (hq : q ∈ p.split) : c.Admits q
  admits_substitute {p : Program} {formals : List String} {ps : List Program} (hp : c.Admits p)
    (hps : ∀ q ∈ ps, c.Admits q) : c.Admits (p.substitute ((formals.map Token.word).zip ps))
  admits_parse {comments : Bool} {text : String} {p : Program}
    (h : Program.parse comments text = .ok p) : c.Admits p
  allows_entry {w : World E} {s : ScopeId} {scope : Scope E} {entry : String × Value E}
    (hw : c.Holds w) (hs : w.scopes[s]? = some scope) (he : entry ∈ scope.table) : c.Allows entry.2
  callable_host {w : World E} {s : ScopeId} {session : Session E} {path : String}
    {f : Function E} (hw : c.Holds w) (hs : w.sessionOf? s = some session)
    (hf : session.host.resolve? path = some f) : c.Callable f
  newId {w : World E} (hw : c.Holds w) : c.Holds { w with nextId := w.nextId + 1 }
  print {w : World E} (text : String) (hw : c.Holds w) :
    c.Holds { w with printed := w.printed ++ text }
  request {w : World E} (path : String) (hw : c.Holds w) :
    c.Holds { w with requested := path :: w.requested }
  bind {w : World E} {s : ScopeId} (name : String) {v : Value E} (hs : c.Uses s)
    (hv : c.Allows v) (hw : c.Holds w) : c.Holds (w.bind s name v)
  child {w : World E} {s : ScopeId} {scope : Scope E} (hw : c.Holds w)
    (hs : w.scopes[s]? = some scope) :
    c.Uses w.scopes.size ∧ c.Holds (w.pushScope ⟨[], some s, scope.session⟩).1
  setDepth {w : World E} (session depth : Nat) (hw : c.Holds w) : c.Holds (w.setDepth session depth)
  fails {w : World E} {e : Error} (he : e.IsOrdinary) (hw : c.Holds w) : c.Fails e w
  fails_setDepth {w : World E} {e : Error} (session depth : Nat) (h : c.Fails e w) :
    c.Fails e (w.setDepth session depth)
  fails_malformed {w : World E} {p : Program} (report : ParseError) (hp : c.Admits p)
    (hv : p.isValid = false) (hw : c.Holds w) : c.Fails (.malformedProgram report) w
  fails_parse {w : World E} {s : ScopeId} {session : Session E} {path text : String}
    {report : ParseError} (hw : c.Holds w) (hs : w.sessionOf? s = some session)
    (ht : session.loader.load path = .ok text)
    (hp : Program.parse session.comments text = .error report) :
    c.Fails (.malformedProgram report) { w with requested := path :: w.requested }

variable {c}

/-! ## Data of a run and themselves -/

variable (c) in
/-- A run is compared with nothing but itself. -/
theorem isFaithful : c.toCorrespondence.IsFaithful :=
  ⟨id, id, And.left⟩

/-- Values that are compared are the same, and keep to the contract. -/
theorem values_iff {v v' : Value E} : c.toCorrespondence.Values v v' ↔ v = v' ∧ c.Allows v := by
  constructor
  · intro h
    have heq := c.isFaithful.eq_of_values h
    subst heq
    exact ⟨rfl, h⟩
  · intro h
    obtain ⟨rfl, hv⟩ := h
    exact hv

/-- Bindings that are compared are the same, and keep to the contract. -/
theorem bindings_iff {entries entries' : List (String × Value E)} :
    List.Forall₂ c.toCorrespondence.Bindings entries entries' ↔
      entries = entries' ∧ ∀ entry ∈ entries, c.Allows entry.2 := by
  constructor
  · intro h
    induction h with
    | nil => exact ⟨rfl, nofun⟩
    | cons hentry _ ih =>
      obtain ⟨hname, hvalue⟩ := hentry
      obtain ⟨hvalue, hallows⟩ := values_iff.mp hvalue
      obtain ⟨rfl, hrest⟩ := ih
      exact ⟨by rw [Prod.ext hname hvalue], List.forall_mem_cons.mpr ⟨hallows, hrest⟩⟩
  · intro h
    obtain ⟨rfl, hallows⟩ := h
    exact List.forall₂_same.mpr fun entry hentry => ⟨rfl, hallows entry hentry⟩

/-- Runs that are compared end in the same way. -/
theorem eq_of_outcomes {o o' : Except Error (Value E) × World E}
    (h : c.toCorrespondence.Outcomes c.toCorrespondence.Values o o') : o = o' := by
  cases h with
  | ok hv hw => rw [(values_iff.mp hv).1, hw.1]
  | failed h => rw [h.1, h.2.1]
  | cut _ h => exact h.elim

variable (c) in
/-- A contract that restricts neither programs nor objects. -/
structure IsPermissive : Prop where
  admits (p : Program) : c.Admits p
  knows (o : Object E) : c.Knows o

/-- A permissive contract compares data for equality. -/
theorem IsPermissive.isExact (h : c.IsPermissive) : c.toCorrespondence.IsExact where
  ids := Iff.rfl
  captures := Iff.rfl
  admits := h.admits
  objects := ⟨And.left, fun ho => ⟨ho, h.knows _⟩⟩

/-! ## Primitives -/

variable {α β : Type} {A : α → β → Prop}

/-- A loader fails in an ordinary way, if at all. -/
theorem isOrdinary_of_load {loader : Loader} {path : String} {e : Error}
    (h : loader.load path = .error e) : e.IsOrdinary := by
  have hunavailable := loader.unavailable h
  cases e with
  | sourceUnavailable path fault => exact trivial
  | _ => exact hunavailable.elim

/-- Names are looked up in keeping with the contract. -/
theorem IsKept.runs_lookup (h : c.IsKept) (s : ScopeId) (name : String) :
    c.toCorrespondence.Runs c.toCorrespondence.Values (EvalM.lookup s name)
      (EvalM.lookup s name) := by
  intro w w' hw
  obtain ⟨rfl, hholds⟩ := hw
  unfold EvalM.lookup
  cases hfound : w.find? s name with
  | some v =>
    obtain ⟨t, scope, hscope, hentry⟩ := World.exists_scope_of_find? hfound
    exact .ok (h.allows_entry hholds hscope hentry) ⟨rfl, hholds⟩
  | none =>
    cases hhost : (w.sessionOf? s).bind fun session => session.host.resolve? name with
    | some f =>
      obtain ⟨session, hsession, hresolved⟩ := Option.bind_eq_some_iff.mp hhost
      exact .ok (.function (h.callable_host hholds hsession hresolved)) ⟨rfl, hholds⟩
    | none => exact .failed ⟨rfl, rfl, h.fails trivial hholds⟩

/-- Sessions are found in keeping with the contract. -/
theorem IsKept.runs_session (h : c.IsKept) (s : ScopeId) :
    c.toCorrespondence.Runs Eq (EvalM.session s) (EvalM.session s) := by
  intro w w' hw
  obtain ⟨rfl, hholds⟩ := hw
  rcases EvalM.session_cases s w with ⟨session, -, hfound⟩ | hlost
  · rw [hfound]
    exact .ok rfl ⟨rfl, hholds⟩
  · rw [hlost]
    exact .failed ⟨rfl, rfl, h.fails trivial hholds⟩

/-- New scopes are made in keeping with the contract. -/
theorem IsKept.runs_child (h : c.IsKept) (s : ScopeId) :
    c.toCorrespondence.Runs c.toCorrespondence.Scopes (EvalM.child s) (EvalM.child s) := by
  intro w w' hw
  obtain ⟨rfl, hholds⟩ := hw
  unfold EvalM.child
  cases hscope : w.scopes[s]? with
  | none => exact .failed ⟨rfl, rfl, h.fails trivial hholds⟩
  | some scope =>
    obtain ⟨huses, hpushed⟩ := h.child hholds hscope
    exact .ok ⟨rfl, huses⟩ ⟨rfl, hpushed⟩

/-- Sources are loaded in keeping with the contract. -/
theorem IsKept.runs_loadSource (h : c.IsKept) (s : ScopeId) (path : String) :
    c.toCorrespondence.Runs (fun p p' => p = p' ∧ c.Admits p) (Form.loadSource s path)
      (Form.loadSource s path) := by
  intro w w' hw
  obtain ⟨rfl, hholds⟩ := hw
  unfold Form.loadSource
  rcases EvalM.session_cases s w with ⟨session, hsession, hfound⟩ | hlost
  · rw [run_bind_ok _ hfound]
    cases htext : session.loader.load path with
    | error e =>
      rw [run_bind_error _ (EvalM.load_eq htext w)]
      exact .failed ⟨rfl, rfl, h.fails (isOrdinary_of_load htext) (h.request path hholds)⟩
    | ok text =>
      rw [run_bind_ok _ (EvalM.load_eq htext w)]
      dsimp only [EvalM.ofExcept]
      cases hparse : Program.parse session.comments text with
      | error report => exact .failed ⟨rfl, rfl, h.fails_parse hholds hsession htext hparse⟩
      | ok p => exact .ok ⟨rfl, h.admits_parse hparse⟩ ⟨rfl, h.request path hholds⟩
  · rw [run_bind_error _ hlost]
    exact .failed ⟨rfl, rfl, h.fails trivial hholds⟩

/-- A contract that the primitives keep to is a simulation of the run by itself. -/
def IsKept.simulation (h : c.IsKept) : Simulation E where
  toCorrespondence := c.toCorrespondence
  ids_unique := by
    intro a a' b b' ha hb
    cases ha
    cases hb
    exact Iff.rfl
  objects_ids ho := congrArg _ ho.1
  objects_text ho := congrArg _ ho.1
  objects_plain := by
    intro a a' ha text
    cases ha
    exact ⟨rfl, h.knows_plain a text⟩
  objects_snapshot := by
    intro a a' entries entries' ha he
    cases ha
    obtain ⟨rfl, hallows⟩ := bindings_iff.mp he
    exact ⟨rfl, h.knows_snapshot a hallows⟩
  admits_split := h.admits_split
  admits_substitute := h.admits_substitute
  captures_of_scopes hs := hs.1
  fail := by
    intro e w w' he hw
    obtain ⟨rfl, hholds⟩ := hw
    exact ⟨rfl, rfl, h.fails he hholds⟩
  malformed := by
    intro p w w' report hp hv hw
    obtain ⟨rfl, hholds⟩ := hw
    exact ⟨rfl, rfl, h.fails_malformed report hp hv hholds⟩
  newId := by
    intro w w' hw
    obtain ⟨rfl, hholds⟩ := hw
    exact .ok rfl ⟨rfl, h.newId hholds⟩
  print := by
    intro text w w' hw
    obtain ⟨rfl, hholds⟩ := hw
    exact .ok rfl ⟨rfl, h.print text hholds⟩
  bind := by
    intro s s' v v' name hs hv w w' hw
    obtain ⟨rfl, huses⟩ := hs
    obtain ⟨rfl, hallows⟩ := values_iff.mp hv
    obtain ⟨rfl, hholds⟩ := hw
    exact .ok rfl ⟨rfl, h.bind name huses hallows hholds⟩
  child := by
    intro s s' hs
    cases hs
    exact h.runs_child s
  session := by
    intro s s' hs
    cases hs
    exact (h.runs_session s).mono fun _ _ _ => trivial
  source := by
    intro s s' path hs
    obtain ⟨rfl, -⟩ := hs
    exact h.runs_loadSource s path
  lookup := by
    intro s s' name hs
    obtain ⟨rfl, -⟩ := hs
    exact h.runs_lookup s name
  bindings := by
    intro s s' hs w w' hw
    obtain ⟨rfl, -⟩ := hs
    obtain ⟨rfl, hholds⟩ := hw
    refine .ok (bindings_iff.mpr ⟨rfl, fun entry hentry => ?_⟩) ⟨rfl, hholds⟩
    obtain ⟨t, scope, hscope, hmem⟩ := World.exists_scope_of_mem_bindings hentry
    exact h.allows_entry hholds hscope hmem
  hasLocal := by
    intro s s' w w' name hs hw
    rw [hs.1, hw.1]
  isRoot := by
    intro s s' w w' hs hw
    rw [hs.1, hw.1]

/-- A permissive contract that allows every failure is an exact simulation. -/
theorem IsKept.isExact (h : c.IsKept) (hc : c.IsPermissive)
    (hfails : ∀ e w, c.Holds w → c.Fails e w) : h.simulation.IsExact where
  toIsExact := hc.isExact
  fail e w w' hw := by
    obtain ⟨rfl, hholds⟩ := hw
    exact ⟨rfl, rfl, hfails e w hholds⟩

/-! ## Nesting -/

/-- One more level of nesting keeps to the contract. -/
theorem IsKept.runs_nested (h : c.IsKept) (s : ScopeId) {m : EvalM E α} {m' : EvalM E β}
    (hm : c.toCorrespondence.Runs A m m') :
    c.toCorrespondence.Runs A (EvalM.nested s m) (EvalM.nested s m') := by
  intro w w' hw
  obtain ⟨rfl, hholds⟩ := hw
  unfold EvalM.nested
  cases w.scopes[s]? with
  | none => exact .failed ⟨rfl, rfl, h.fails trivial hholds⟩
  | some scope =>
    dsimp only
    cases w.sessions[scope.session]? with
    | none => exact .failed ⟨rfl, rfl, h.fails trivial hholds⟩
    | some session =>
      dsimp only
      split
      · have hinner := hm _ _ ⟨rfl, h.setDepth scope.session (session.depth + 1) hholds⟩
        generalize m (w.setDepth scope.session (session.depth + 1)) = o,
          m' (w.setDepth scope.session (session.depth + 1)) = o' at hinner
        cases hinner with
        | ok ha hw =>
          obtain ⟨rfl, hholds⟩ := hw
          exact .ok ha ⟨rfl, h.setDepth _ _ hholds⟩
        | failed he =>
          obtain ⟨rfl, rfl, hfails⟩ := he
          exact .failed ⟨rfl, rfl, h.fails_setDepth _ _ hfails⟩
        | cut _ hcut => exact hcut.elim
      · exact .failed ⟨rfl, rfl, h.fails trivial hholds⟩

variable [Embedding E]

/-- Evaluation keeps to the contract. -/
theorem IsKept.evaluators (h : c.IsKept) (hE : h.simulation.RespectedByEmbedding) (fuel : Nat) :
    h.simulation.Evaluators (evaluateWithin fuel) (evaluateWithin fuel) := by
  refine Simulation.evaluators_evaluateWithin hE (fun {s s' m m'} hs hm => ?_) fuel
  obtain ⟨rfl, -⟩ := hs
  exact h.runs_nested s hm

/-- What an evaluation leaves behind keeps to the contract. -/
theorem IsKept.evaluateWithin (h : c.IsKept) (hE : h.simulation.RespectedByEmbedding) (fuel : Nat)
    {w : World E} {s : ScopeId} {p : Program} (hw : c.Holds w) (hs : c.Uses s) (hp : c.Admits p) :
    c.toCorrespondence.Outcomes c.toCorrespondence.Values (evaluateWithin fuel s p w)
      (evaluateWithin fuel s p w) :=
  h.evaluators hE fuel ⟨rfl, hs⟩ hp w w ⟨rfl, hw⟩

/-- What a call of a closure leaves behind keeps to the contract, wherever it is called from. -/
theorem IsKept.call_closure (h : c.IsKept) (hE : h.simulation.RespectedByEmbedding) {w : World E}
    (hw : c.Holds w) (id : Nat) (label : Option String) (formals : List String) {body : Program}
    (hp : c.Admits body) (scope s : ScopeId) {operands : List (Operand E)}
    (hoperands : List.Forall₂ c.toCorrespondence.Operands operands operands) :
    c.toCorrespondence.Outcomes c.toCorrespondence.Values
      (Function.call ⟨id, label, .closure formals body scope⟩ s operands w)
      (Function.call ⟨id, label, .closure formals body scope⟩ s operands w) := by
  have hclosure : h.simulation.Captures scope scope := rfl
  have hadapt := h.simulation.runs_ofExcept
    (h.simulation.answers_adapt (Signature.untyped formals.length) hoperands)
  refine runs_bind hadapt (fun _ _ hadapted => ?_) w w ⟨rfl, hw⟩
  exact Simulation.runs_closure formals hclosure (fun hs => h.evaluators hE w.budget hs hp) hadapted

end Contract

end FlatLisp
