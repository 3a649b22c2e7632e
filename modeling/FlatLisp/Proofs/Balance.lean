import FlatLisp.Proofs.Registry
import FlatLisp.Proofs.Simulation.Contract
import FlatLisp.Proofs.Simulation.Sample
import FlatLisp.Proofs.Simulation.Session

/-!
# Balance

A program whose parentheses do not match is refused before it does anything. Evaluating one whose
parentheses match meets only programs of that sort: the parts of a combination or a sequence, the
bodies of closures and templates, expanded templates, and sources that could be read. The worlds of
sessions that are driven by evaluation alone keep programs of that sort only.
-/

namespace FlatLisp

variable {E : Type}

/-! ## Balanced data -/

/-- The program that a body keeps has matching parentheses. -/
def Body.IsBalanced : Body E → Prop
  | .closure _ p _ | .template _ p => p.isValid = true
  | _ => True

/-- The programs that a value keeps, also in the bindings of a snapshot, have matching
parentheses. -/
inductive Value.IsBalanced : Value E → Prop
  | bool (b : Bool) : IsBalanced (.bool b)
  | int (n : Int64) : IsBalanced (.int n)
  | float (x : Float) : IsBalanced (.float x)
  | complex (z : Complex) : IsBalanced (.complex z)
  | symbol (text : String) : IsBalanced (.symbol text)
  | empty : IsBalanced .empty
  | function {f : Function E} (h : f.body.IsBalanced) : IsBalanced (.function f)
  | object {o : Object E} (h : ∀ entries, o.snapshot = some entries →
      ∀ entry ∈ entries, IsBalanced entry.2) : IsBalanced (.object o)

/-- The programs that the functions of a host keep have matching parentheses. -/
def Host.IsBalanced (host : Host E) : Prop :=
  ∀ f, host.Offers f → f.body.IsBalanced

/-- The programs that the functions of a registry keep have matching parentheses. -/
def Registry.IsBalanced (r : Registry E) : Prop :=
  ∀ entry ∈ r, entry.2.body.IsBalanced

/-- Every program that a world keeps has matching parentheses, and every scope has a session. -/
structure World.IsBalanced (w : World E) : Prop where
  tables {s : ScopeId} {scope : Scope E} {entry : String × Value E}
    (hs : w.scopes[s]? = some scope) (he : entry ∈ scope.table) : entry.2.IsBalanced
  hosts {session : Session E} (hs : session ∈ w.sessions) : session.host.IsBalanced
  sessions {s : ScopeId} {scope : Scope E} (hs : w.scopes[s]? = some scope) :
    scope.session < w.sessions.size

namespace Registry.IsBalanced

variable {r : Registry E} {f : Function E}

/-- The host of a balanced registry. -/
theorem host (h : r.IsBalanced) : r.host.IsBalanced := by
  intro f hf
  obtain ⟨entry, hentry, rfl⟩ := Registry.exists_mem_of_offers hf
  exact h entry hentry

/-- A balanced function may be put under any path. -/
theorem insert (h : r.IsBalanced) (path : String) (hf : f.body.IsBalanced) :
    (r.insert path f).IsBalanced := by
  intro entry hentry
  rcases Registry.mem_insert hentry with rfl | hold
  · exact hf
  · exact h entry hold

end Registry.IsBalanced

namespace World.IsBalanced

variable {w : World E}

/-- A balanced value may be bound anywhere. -/
theorem bind (h : w.IsBalanced) (s : ScopeId) (name : String) {v : Value E} (hv : v.IsBalanced) :
    (w.bind s name v).IsBalanced := by
  have hscope : ∀ {t : ScopeId} {scope : Scope E}, (w.bind s name v).scopes[t]? = some scope →
      ∃ before : Scope E, w.scopes[t]? = some before ∧ before.session = scope.session ∧
        ∀ entry ∈ scope.table, entry = (name, v) ∨ entry ∈ before.table := by
    intro t scope ht
    rw [World.getElem?_bind] at ht
    split at ht
    · obtain ⟨before, hbefore, rfl⟩ := Option.map_eq_some_iff.mp ht
      exact ⟨before, hbefore, rfl, fun entry => Table.mem_insert⟩
    · exact ⟨scope, ht, rfl, fun _ => .inr⟩
  refine ⟨fun hs he => ?_, h.hosts, fun hs => ?_⟩
  · obtain ⟨before, hbefore, -, hentries⟩ := hscope hs
    rcases hentries _ he with rfl | hold
    · exact hv
    · exact h.tables hbefore hold
  · obtain ⟨before, hbefore, hsession, -⟩ := hscope hs
    exact hsession ▸ h.sessions hbefore

/-- Scopes without bindings may be added to a session. -/
theorem pushScope (h : w.IsBalanced) {parent : Option ScopeId} {session : Nat}
    (hsession : session < w.sessions.size) : (w.pushScope ⟨[], parent, session⟩).1.IsBalanced := by
  refine ⟨fun hs he => ?_, h.hosts, fun hs => ?_⟩
  · rw [World.getElem?_pushScope] at hs
    split at hs
    · cases hs
      cases he
    · exact h.tables hs he
  · rw [World.getElem?_pushScope] at hs
    split at hs
    · cases hs
      exact hsession
    · exact h.sessions hs

/-- How deep a session is nested does not matter. -/
theorem setDepth (h : w.IsBalanced) (session depth : Nat) : (w.setDepth session depth).IsBalanced := by
  refine ⟨h.tables, fun hs => ?_, fun hs => ?_⟩
  · obtain ⟨before, hbefore, hsession⟩ := World.exists_of_mem_setDepth hs
    have hhost := h.hosts hbefore
    rw [hsession]
    exact hhost
  · simpa [World.setDepth] using h.sessions hs

end World.IsBalanced

/-! ## The contract -/

/-- What may have become of the world `w₀` as far as sources are concerned: more of them were asked
for, and sessions read them as they did. -/
structure World.Follows (w₀ w : World E) : Prop where
  requests : ∃ new, w.requested = new ++ w₀.requested
  settings {session : Session E} (h : session ∈ w.sessions) :
    ∃ before ∈ w₀.sessions, before.loader = session.loader ∧ before.comments = session.comments

/-- Since `w₀`, a source was loaded that its session cannot read. -/
def World.LoadedUnreadable (w₀ w : World E) (report : ParseError) : Prop :=
  ∃ new path text, ∃ session ∈ w₀.sessions, w.requested = new ++ w₀.requested ∧ path ∈ new ∧
    session.loader.load path = .ok text ∧ Program.parse session.comments text = .error report

/-- The contract to keep and evaluate programs with matching parentheses only, and to report on
parentheses only if a source that was loaded since `w₀` cannot be read. -/
def balanceContract (w₀ : World E) : Contract E where
  Admits p := p.isValid = true
  Knows o := (Value.object o).IsBalanced
  Uses _ := True
  Holds w := w.IsBalanced ∧ w₀.Follows w
  Fails e w := (w.IsBalanced ∧ w₀.Follows w) ∧
    ∀ report, e = .malformedProgram report → w₀.LoadedUnreadable w report

namespace balanceContract

variable {w₀ : World E}

/-- The functions that keep to the contract. -/
theorem callable_iff {f : Function E} : (balanceContract w₀).Callable f ↔ f.body.IsBalanced := by
  obtain ⟨id, label, body⟩ := f
  constructor
  · intro h
    have hbody := h.bodies
    cases body with
    | closure formals p s =>
      cases hbody with
      | closure _ hp _ => exact hp
    | template formals p =>
      cases hbody with
      | template _ hp => exact hp
    | _ => exact trivial
  · intro h
    refine ⟨rfl, rfl, ?_⟩
    cases body with
    | form f => exact .form f
    | builtin b => exact .builtin b
    | host f => exact .host f
    | closure formals p s => exact .closure formals h rfl
    | template formals p => exact .template formals h
    | embedded e => exact .embedded e

/-- The values that keep to the contract. -/
theorem allows_iff {v : Value E} : (balanceContract w₀).Allows v ↔ v.IsBalanced := by
  constructor
  · intro h
    cases v with
    | bool b => exact .bool b
    | int n => exact .int n
    | float x => exact .float x
    | complex z => exact .complex z
    | symbol text => exact .symbol text
    | empty => exact .empty
    | function f =>
      cases h with
      | function h => exact .function (callable_iff.mp h)
    | object o =>
      cases h with
      | object h => exact h.2
  · intro h
    cases h with
    | bool b => exact .bool b
    | int n => exact .int n
    | float x => exact .float x
    | complex z => exact .complex z
    | symbol text => exact .symbol text
    | empty => exact .empty
    | function h => exact .function (callable_iff.mpr h)
    | object h => exact .object ⟨rfl, .object h⟩

/-- Asking for a source is all that happens to the world. -/
theorem follows_request {w : World E} (path : String) (h : w₀.Follows w) :
    w₀.Follows { w with requested := path :: w.requested } := by
  obtain ⟨new, hnew⟩ := h.requests
  exact ⟨⟨path :: new, congrArg (path :: ·) hnew⟩, h.settings⟩

/-- Nesting does not change how sessions read sources. -/
theorem follows_setDepth {w : World E} (i depth : Nat) (h : w₀.Follows w) :
    w₀.Follows (w.setDepth i depth) := by
  refine ⟨h.requests, fun hs => ?_⟩
  obtain ⟨before, hbefore, hsession⟩ := World.exists_of_mem_setDepth hs
  obtain ⟨first, hfirst, hloader, hcomments⟩ := h.settings hbefore
  rw [hsession]
  exact ⟨first, hfirst, hloader, hcomments⟩

/-- The session of a scope is a session of the world. -/
theorem mem_of_sessionOf? {w : World E} {s : ScopeId} {session : Session E}
    (h : w.sessionOf? s = some session) : session ∈ w.sessions := by
  obtain ⟨scope, -, hsession⟩ := Option.bind_eq_some_iff.mp h
  exact Array.mem_of_getElem? hsession

variable (w₀) in
/-- The primitives of evaluation keep to balanced programs. -/
theorem isKept : (balanceContract w₀).IsKept where
  knows_plain _ _ := .object nofun
  knows_snapshot id entries h := by
    refine .object fun entries' heq entry hentry => ?_
    cases heq
    exact allows_iff.mp (h entry hentry)
  admits_split _ hq := Program.isValid_of_mem_split hq
  admits_substitute hp hps := Program.isValid_substitute hp hps
  admits_parse h := Program.isValid_of_parse h
  allows_entry hw hs he := allows_iff.mpr (hw.1.tables hs he)
  callable_host hw hs hf := callable_iff.mpr (hw.1.hosts (mem_of_sessionOf? hs) _ ⟨_, hf⟩)
  newId hw := ⟨⟨hw.1.tables, hw.1.hosts, hw.1.sessions⟩, ⟨hw.2.requests, hw.2.settings⟩⟩
  print _ hw := ⟨⟨hw.1.tables, hw.1.hosts, hw.1.sessions⟩, ⟨hw.2.requests, hw.2.settings⟩⟩
  request path hw :=
    ⟨⟨hw.1.tables, hw.1.hosts, hw.1.sessions⟩, follows_request path hw.2⟩
  bind name _ _ hv hw := ⟨hw.1.bind _ name (allows_iff.mp hv), ⟨hw.2.requests, hw.2.settings⟩⟩
  child hw hs :=
    ⟨trivial, hw.1.pushScope (hw.1.sessions hs), ⟨hw.2.requests, hw.2.settings⟩⟩
  setDepth i depth hw := ⟨hw.1.setDepth i depth, follows_setDepth i depth hw.2⟩
  fails he hw := by
    refine ⟨hw, fun report heq => ?_⟩
    subst heq
    exact he.elim
  fails_setDepth i depth h :=
    ⟨⟨h.1.1.setDepth i depth, follows_setDepth i depth h.1.2⟩, h.2⟩
  fails_malformed _ hp hv _ := absurd (hv.symm.trans hp) Bool.false_ne_true
  fails_parse {w s session path text report} hw hs ht hp := by
    refine ⟨⟨⟨hw.1.tables, hw.1.hosts, hw.1.sessions⟩, follows_request path hw.2⟩, ?_⟩
    intro report' heq
    cases heq
    obtain ⟨new, hnew⟩ := hw.2.requests
    obtain ⟨before, hbefore, hloader, hcomments⟩ := hw.2.settings (mem_of_sessionOf? hs)
    refine ⟨path :: new, path, text, before, hbefore, congrArg (path :: ·) hnew,
      List.mem_cons_self, ?_, ?_⟩
    · rw [hloader]
      exact ht
    · rw [hcomments]
      exact hp

/-- The world after a run that keeps to balanced programs is balanced. -/
theorem isBalanced_of_outcomes {α β : Type} {A : α → β → Prop}
    {o : Except Error α × World E} {o' : Except Error β × World E}
    (h : (balanceContract w₀).toCorrespondence.Outcomes A o o') : o.2.IsBalanced := by
  cases h with
  | ok _ hw => exact hw.2.1
  | failed h => exact h.2.2.1.1
  | cut _ h => exact h.elim

end balanceContract

/-- A new session that binds nothing has the balanced functions of its host only. -/
theorem World.IsBalanced.openBare {w : World E} (hw : w.IsBalanced) {host : Host E}
    (hhost : host.IsBalanced) (loader : Loader) (comments : Bool) (maxDepth : Nat) :
    (openBare host loader comments maxDepth w).2.IsBalanced := by
  let session : Session E := ⟨host, loader, comments, maxDepth, 0, false⟩
  have hsessions : ({ w with sessions := w.sessions.push session } : World E).IsBalanced := by
    refine ⟨hw.tables, fun hs => ?_, fun hs => ?_⟩
    · rcases Array.mem_push.mp hs with hold | rfl
      · exact hw.hosts hold
      · exact hhost
    · rw [Array.size_push]
      exact Nat.lt_succ_of_lt (hw.sessions hs)
  exact hsessions.pushScope (by simp)

/-- A new session has balanced functions only. -/
theorem World.IsBalanced.openRoot {w : World E} (hw : w.IsBalanced) {host : Host E}
    (hhost : host.IsBalanced) (loader : Loader) (comments : Bool) (maxDepth : Nat) :
    (openRoot host loader comments maxDepth w).2.IsBalanced := by
  let w₁ : World E := (FlatLisp.openBare host loader comments maxDepth w).2
  have hbare : w₁.IsBalanced := hw.openBare hhost loader comments maxDepth
  have hs : (balanceContract.isKept w₁).simulation.Scopes w.scopes.size w.scopes.size :=
    ⟨rfl, trivial⟩
  have hforms := Simulation.runs_installForms hs Form.all
  have hbuiltins := Simulation.runs_installBuiltins hs Builtin.all
  have hinstall := Correspondence.runs_bind hforms fun _ _ _ =>
    Correspondence.runs_bind hbuiltins fun _ _ _ =>
      Correspondence.runs_pure (Eq.refl w.scopes.size)
  have hinstalled := balanceContract.isBalanced_of_outcomes
    (hinstall w₁ w₁ ⟨rfl, hbare, ⟨[], rfl⟩, fun h => ⟨_, h, rfl, rfl⟩⟩)
  have hopen : FlatLisp.openBare host loader comments maxDepth w = (.ok w.scopes.size, w₁) := rfl
  unfold FlatLisp.openRoot
  rw [Correspondence.run_bind_ok _ hopen]
  exact hinstalled

/-! ## Evaluation that is watched -/

/-- Evaluation that turns to `stray` for every program, at any level of nesting, whose parentheses
do not match. -/
def evaluateOr [Embedding E] (stray : ScopeId → Program → EvalM E (Value E)) :
    (fuel : Nat) → ScopeId → Program → EvalM E (Value E)
  | 0, s, p => if p.isValid then EvalM.nested s (throw (.stackExhausted 0)) else stray s p
  | fuel + 1, s, p =>
    if p.isValid then EvalM.nested s (step (evaluateOr stray fuel) s p) else stray s p

variable [Embedding E]

/-- Evaluation never turns to `stray` as long as its programs are balanced. -/
theorem balanceContract.evaluators_evaluateOr (hE : Embedding.IsParametric E) (w₀ : World E)
    (stray : ScopeId → Program → EvalM E (Value E)) (fuel : Nat) :
    (isKept w₀).simulation.Evaluators (evaluateWithin fuel) (evaluateOr stray fuel) := by
  have hkept := isKept w₀
  induction fuel with
  | zero =>
    intro s s' p hs hp
    obtain ⟨rfl, -⟩ := hs
    have hvalid : p.isValid = true := hp
    simp only [evaluateOr, hvalid, ↓reduceIte]
    exact hkept.runs_nested s (hkept.simulation.runs_throw trivial)
  | succ fuel ih =>
    intro s s' p hs hp
    have hstep := Simulation.runs_step (hE _) ih hs hp
    obtain ⟨rfl, -⟩ := hs
    have hvalid : p.isValid = true := hp
    simp only [evaluateOr, hvalid, ↓reduceIte]
    exact hkept.runs_nested s hstep

/-- How an evaluation of a balanced program ends, watched or not. -/
theorem outcomes_evaluateOr (hE : Embedding.IsParametric E) {w : World E} (hw : w.IsBalanced)
    (stray : ScopeId → Program → EvalM E (Value E)) (s : ScopeId) {p : Program}
    (hp : p.isValid = true) :
    (balanceContract w).toCorrespondence.Outcomes (balanceContract w).toCorrespondence.Values
      (evaluate s p w) (evaluateOr stray w.budget s p w) := by
  have hfollows : w.Follows w := ⟨⟨[], rfl⟩, fun h => ⟨_, h, rfl, rfl⟩⟩
  exact balanceContract.evaluators_evaluateOr hE w stray w.budget ⟨rfl, trivial⟩ hp w w
    ⟨rfl, hw, hfollows⟩

/-! ## Refused programs -/

/-- A program whose parentheses do not match is refused before anything is evaluated. -/
theorem step_of_not_isValid {p : Program} (hp : p.isValid = false) :
    ∃ report, ∀ (eval : ScopeId → Program → EvalM E (Value E)) (s : ScopeId) (w : World E),
      step eval s p w = (.error (.malformedProgram report), w) := by
  match p with
  | [] => exact absurd hp Bool.noConfusion
  | [.left] => exact ⟨_, fun _ _ _ => rfl⟩
  | [.right] => exact ⟨_, fun _ _ _ => rfl⟩
  | [.word _] => exact absurd hp Bool.noConfusion
  | a :: b :: rest =>
    have hcombination : ¬Program.isCombination (a :: b :: rest) = true := by
      intro h
      exact absurd (hp.symm.trans (Program.isValid_of_isCombination h)) Bool.false_ne_true
    cases hcheck : Program.validate (a :: b :: rest) with
    | ok _ =>
      exact absurd (hp.symm.trans (Program.validate_eq_ok_iff.mp hcheck)) Bool.false_ne_true
    | error report =>
      refine ⟨report, fun eval s w => ?_⟩
      simp only [step, hcombination, hcheck]
      rfl

/-- What becomes of a program whose parentheses do not match: the world stays as it is, and the
failure is about the program unless the session allows no evaluation. -/
theorem evaluate_of_not_isValid {p : Program} (hp : p.isValid = false) :
    ∃ report, ∀ (s : ScopeId) (w : World E), evaluate s p w =
      match w.sessionOf? s with
      | none => (.error (.domain .lostScope), w)
      | some session =>
        if session.depth < session.maxDepth then (.error (.malformedProgram report), w)
        else (.error (.stackExhausted session.maxDepth), w) := by
  obtain ⟨report, hstep⟩ := step_of_not_isValid (E := E) hp
  refine ⟨report, fun s w => ?_⟩
  cases hsession : w.sessionOf? s with
  | none =>
    unfold evaluate
    cases w.budget <;> exact EvalM.nested_of_lost _ hsession
  | some session =>
    by_cases hdepth : session.depth < session.maxDepth
    · obtain ⟨fuel, hfuel⟩ := Nat.exists_eq_add_one.mpr (World.budget_pos hsession hdepth)
      simp only [hdepth, ↓reduceIte, evaluate, hfuel]
      exact EvalM.nested_of_fails (hstep _ s) hsession hdepth
    · simp only [hdepth, ↓reduceIte, evaluate]
      cases w.budget <;> exact EvalM.nested_of_full _ hsession hdepth

/-- A program whose parentheses do not match changes nothing. -/
theorem evaluate_world_of_not_isValid {p : Program} (hp : p.isValid = false) (s : ScopeId)
    (w : World E) : (evaluate s p w).2 = w := by
  obtain ⟨report, h⟩ := evaluate_of_not_isValid (E := E) hp
  rw [h]
  split
  · rfl
  · split <;> rfl

/-! ## Driven worlds -/

/-- Worlds in which sessions are started with the special forms and the builtin operations and then
driven by evaluation alone, all in any order. -/
inductive Driven : World E → Prop
  /-- There is no session yet. -/
  | fresh {w : World E} (hscopes : w.scopes = #[]) (hsessions : w.sessions = #[]) : Driven w
  /-- A function was made, for a registry of host functions. -/
  | made {w : World E} (h : Driven w) (label : Option String) (body : Body E) :
      Driven (Function.make label body w).2
  | opened {w : World E} (h : Driven w) {host : Host E} (hhost : host.IsBalanced)
      (loader : Loader) (comments : Bool) (maxDepth : Nat) :
      Driven (openRoot host loader comments maxDepth w).2
  | evaluated {w : World E} (h : Driven w) (s : ScopeId) (p : Program) : Driven (evaluate s p w).2
  | interpreted {w : World E} (h : Driven w) (s : ScopeId) (text : String) :
      Driven (interpret s text w).2
  /-- Some evaluations of a session are under way. -/
  | nested {w : World E} (h : Driven w) (session depth : Nat) : Driven (w.setDepth session depth)

/-- A registry can be made of balanced functions, and then sessions can start with it. -/
theorem Driven.ofFunctions {w : World E} (h : Driven w)
    {entries : List (String × Option String × Body E)}
    (hentries : ∀ entry ∈ entries, entry.2.2.IsBalanced) :
    ∃ registry w₁, Registry.ofFunctions entries w = (.ok registry, w₁) ∧ registry.IsBalanced ∧
      Driven w₁ := by
  cases entries with
  | nil => exact ⟨[], w, rfl, nofun, h⟩
  | cons first rest =>
    have hempty : Registry.IsBalanced ([] : Registry E) := nofun
    refine EvalM.exists_foldlM (I := fun (r : Registry E) w => r.IsBalanced ∧ Driven w) ?_
      ⟨hempty, h⟩
    intro entry hentry r w hw
    exact ⟨_, _, rfl, hw.1.insert entry.1 (hentries entry hentry), hw.2.made entry.2.1 entry.2.2⟩

/-- The standard host functions can be made, and then sessions can start with them. -/
theorem Driven.exists_standard {w : World E} (h : Driven w) :
    ∃ registry w₁, Registry.standard w = (.ok registry, w₁) ∧ registry.IsBalanced ∧
      Driven w₁ := by
  refine h.ofFunctions fun entry hentry => ?_
  obtain ⟨f, -, rfl⟩ := List.mem_map.mp hentry
  exact trivial

/-- Sessions can start with the standard host functions. -/
theorem Driven.standard {w : World E} (h : Driven w) (loader : Loader) (comments : Bool)
    (maxDepth : Nat) :
    Driven
      ((Registry.standard >>= fun r => openRoot r.host loader comments maxDepth) w).2 := by
  obtain ⟨registry, w₁, hrun, hbalanced, hdriven⟩ := h.exists_standard
  rw [Correspondence.run_bind_ok _ hrun]
  exact hdriven.opened hbalanced.host loader comments maxDepth

/-- Evaluation keeps worlds balanced. -/
theorem World.IsBalanced.evaluate (hE : Embedding.IsParametric E) {w : World E} (hw : w.IsBalanced)
    (s : ScopeId) (p : Program) : (evaluate s p w).2.IsBalanced := by
  cases hp : p.isValid with
  | true =>
    exact balanceContract.isBalanced_of_outcomes
      (outcomes_evaluateOr hE hw FlatLisp.evaluate s hp)
  | false =>
    rw [evaluate_world_of_not_isValid hp]
    exact hw

/-- Reading a text and evaluating it keeps worlds balanced. -/
theorem World.IsBalanced.interpret (hE : Embedding.IsParametric E) {w : World E} (hw : w.IsBalanced)
    (s : ScopeId) (text : String) : (interpret s text w).2.IsBalanced := by
  unfold FlatLisp.interpret
  rcases EvalM.session_cases s w with ⟨session, -, hfound⟩ | hlost
  · rw [Correspondence.run_bind_ok _ hfound]
    cases hparse : Program.parse session.comments text with
    | error report => exact hw
    | ok p => exact hw.evaluate hE s p
  · rw [Correspondence.run_bind_error _ hlost]
    exact hw

/-- Driven worlds are balanced. -/
theorem Driven.isBalanced (hE : Embedding.IsParametric E) {w : World E} (h : Driven w) :
    w.IsBalanced := by
  induction h with
  | fresh hscopes hsessions =>
    refine ⟨fun hs => ?_, fun hs => ?_, fun hs => ?_⟩
    · simp [hscopes] at hs
    · simp [hsessions] at hs
    · simp [hscopes] at hs
  | made _ label body ih => exact ⟨ih.tables, ih.hosts, ih.sessions⟩
  | opened _ hhost loader comments maxDepth ih => exact ih.openRoot hhost loader comments maxDepth
  | evaluated _ s p ih => exact ih.evaluate hE s p
  | interpreted _ s text ih => exact ih.interpret hE s text
  | nested _ session depth ih => exact ih.setDepth session depth

/-- In every driven world, a program whose parentheses do not match is refused: it changes nothing, and
the failure reports on its parentheses unless no depth is left. A program whose parentheses match
meets no such report unless a source that it loads cannot be read; its value is balanced; and
evaluating it never comes to a program whose parentheses do not match, so it does not matter what
would be done with one. All that the world keeps is balanced. -/
theorem evaluate_balance (hE : Embedding.IsParametric E) {w : World E} (hw : Driven w) (s : ScopeId)
    (hs : s < w.scopes.size) (p : Program) :
    (p.isValid = false → (evaluate s p w).2 = w ∧ ∃ session, w.sessionOf? s = some session ∧
      if session.depth < session.maxDepth then
        ∃ report, (evaluate s p w).1 = .error (.malformedProgram report)
      else (evaluate s p w).1 = .error (.stackExhausted session.maxDepth)) ∧
    (p.isValid = true →
      (∀ report, (evaluate s p w).1 = .error (.malformedProgram report) →
        w.LoadedUnreadable (evaluate s p w).2 report) ∧
      (∀ v, (evaluate s p w).1 = .ok v → v.IsBalanced) ∧
      ∀ stray, evaluateOr stray w.budget s p w = evaluate s p w) ∧
    w.IsBalanced := by
  have hbalanced := hw.isBalanced hE
  refine ⟨fun hp => ⟨evaluate_world_of_not_isValid hp s w, ?_⟩, fun hp => ?_, hbalanced⟩
  · have hscope : w.scopes[s]? = some (w.scopes[s]) := Array.getElem?_eq_getElem hs
    have hsession := Array.getElem?_eq_getElem (hbalanced.sessions hscope)
    refine ⟨_, by rw [World.sessionOf?, hscope, Option.bind_some, hsession], ?_⟩
    obtain ⟨report, hrefused⟩ := evaluate_of_not_isValid (E := E) hp
    rw [hrefused, World.sessionOf?, hscope, Option.bind_some, hsession]
    dsimp only
    split
    · exact ⟨report, rfl⟩
    · rfl
  · have houtcome := outcomes_evaluateOr hE hbalanced evaluate s hp
    refine ⟨fun report hfailed => ?_, fun v hok => ?_, fun stray => ?_⟩
    · generalize evaluate s p w = o, evaluateOr evaluate w.budget s p w = o' at houtcome hfailed
      cases houtcome with
      | ok => cases hfailed
      | failed h =>
        cases hfailed
        exact h.2.2.2 report rfl
      | cut _ h => exact h.elim
    · generalize evaluate s p w = o, evaluateOr evaluate w.budget s p w = o' at houtcome hok
      cases houtcome with
      | ok hv =>
        cases hok
        exact balanceContract.allows_iff.mp (Contract.values_iff.mp hv).2
      | failed => cases hok
      | cut _ h => exact h.elim
    · exact (Contract.eq_of_outcomes (outcomes_evaluateOr hE hbalanced stray s hp)).symm

/-- A session with the standard host functions that can load a source without end. -/
def loadingSession : World Embed.Sample :=
  ((Registry.standard >>= fun r => openRoot r.host (.memory [("m", "(")]) false 8) World.empty).2

/-- In such a session a lone parenthesis is refused, and the bad source is all that loading it can be
blamed for. -/
theorem evaluate_balance_loadingSession :
    (evaluate 0 [.right] loadingSession).2 = loadingSession ∧
      ∀ report, (evaluate 0 [.left, .word "from", .word "m", .right] loadingSession).1 =
          .error (.malformedProgram report) →
        loadingSession.LoadedUnreadable
          (evaluate 0 [.left, .word "from", .word "m", .right] loadingSession).2 report := by
  have hdriven : Driven loadingSession := (Driven.fresh rfl rfl).standard _ _ _
  have hE := Embed.isParametric_sample
  have hs : 0 < loadingSession.scopes.size := by decide +kernel
  exact ⟨((evaluate_balance hE hdriven 0 hs [.right]).1 rfl).1,
    ((evaluate_balance hE hdriven 0 hs [.left, .word "from", .word "m", .right]).2.1 rfl).1⟩

end FlatLisp
