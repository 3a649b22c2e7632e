import FlatLisp.Proofs.Coercion
import FlatLisp.Proofs.Keywords

/-!
# Heights

An expression is a literal, or a list of the name of an eager operation and further expressions. The
evaluations nested in one another are then just the trees that lie within one another, so the limit
that an expression needs can be read off its shape: it is the height of the tree.

Two runs at different depths are compared (`NeedsRoom`). If the first one has a result, the second one has
the same, provided that there is room for the height of the expression; otherwise the second one
exhausts its limit, whichever part it is that does not fit. The operations themselves do not look at
sessions (`EvalM.IsApart`), so only nesting tells the two runs apart.
-/

namespace FlatLisp

open Correspondence

variable {E : Type}

mutual

/-- How many trees lie within one another: one for a leaf, and one more than for the highest child
for a list. -/
def Tree.height : Tree → Nat
  | .leaf _ => 1
  | .list children => Forest.height children + 1

/-- The height of the highest tree. -/
def Forest.height : Forest → Nat
  | [] => 0
  | tree :: forest => max tree.height (Forest.height forest)

end

/-! ## Computations that do not look at sessions -/

/-- A computation that neither looks at sessions nor changes them or the scopes. -/
structure EvalM.IsApart {α : Type} (m : EvalM E α) : Prop where
  scopes (w : World E) : (m w).2.scopes = w.scopes
  sessions (w : World E) (sessions : Array (Session E)) :
    m { w with sessions := sessions } = ((m w).1, { (m w).2 with sessions := sessions })

namespace EvalM.IsApart

variable {α β : Type}

/-- What does not depend on the world does not look at sessions. -/
theorem ofExcept (result : Except Error α) : (EvalM.ofExcept result : EvalM E α).IsApart :=
  ⟨fun _ => rfl, fun _ _ => rfl⟩

/-- Sessions are left as they are. -/
theorem sessions_eq {m : EvalM E α} (hm : m.IsApart) (w : World E) :
    (m w).2.sessions = w.sessions :=
  congrArg (fun o => o.2.sessions) (hm.sessions w w.sessions)

/-- A result that is given does not look at sessions. -/
theorem pure (a : α) : (Pure.pure a : EvalM E α).IsApart :=
  ofExcept (.ok a)

/-- Numbers are given out across all sessions. -/
theorem newId : (EvalM.newId : EvalM E Nat).IsApart :=
  ⟨fun _ => rfl, fun _ _ => rfl⟩

/-- There is one output for all sessions. -/
theorem print (text : String) : (EvalM.print text : EvalM E Unit).IsApart :=
  ⟨fun _ => rfl, fun _ _ => rfl⟩

/-- What is in sight depends on scopes alone. -/
theorem bindings (s : ScopeId) : (EvalM.bindings s : EvalM E _).IsApart where
  scopes _ := rfl
  sessions w sessions := by
    have hscopes : World.scopes { w with sessions := sessions } = w.scopes := rfl
    simp only [EvalM.bindings, World.bindings, World.visible_of_scopes_eq hscopes s]

/-- One computation after the other. -/
theorem bind {m : EvalM E α} {f : α → EvalM E β} (hm : m.IsApart) (hf : ∀ a, (f a).IsApart) :
    (m >>= f).IsApart := by
  refine ⟨fun w => ?_, fun w sessions => ?_⟩
  · have hscopes := hm.scopes w
    match hrun : m w with
    | (.error e, u) =>
      rw [hrun] at hscopes
      rw [run_bind_error f hrun]
      exact hscopes
    | (.ok a, u) =>
      rw [hrun] at hscopes
      rw [run_bind_ok f hrun, (hf a).scopes]
      exact hscopes
  · have hsessions := hm.sessions w sessions
    match hrun : m w with
    | (.error e, u) =>
      rw [hrun] at hsessions
      rw [run_bind_error f hrun, run_bind_error f hsessions]
    | (.ok a, u) =>
      rw [hrun] at hsessions
      rw [run_bind_ok f hrun, run_bind_ok f hsessions, (hf a).sessions]

/-- Reading an operand may number an object, and that is all. -/
theorem read (type : ParamType) (operand : Operand E) (position : Nat) :
    (type.read operand position).IsApart := by
  cases operand with
  | value v =>
    rw [ParamType.read_value]
    exact ofExcept _
  | program p =>
    rw [ParamType.read_program]
    exact ofExcept _
  | raw payload =>
    rw [ParamType.read_raw]
    exact bind newId fun _ => ofExcept _

/-- Operands of one type are read one after the other. -/
theorem readRest (type : ParamType) (position : Nat) (operands : List (Operand E)) :
    (Args.readRest type position operands).IsApart := by
  induction operands generalizing position with
  | nil => exact pure []
  | cons operand operands ih =>
    exact bind (read type operand position) fun _ => bind (ih (position + 1)) fun _ => pure _

/-- Operands are read one after the other. -/
theorem readFrom (missing : Error) (types : List ParamType) (rest : Option ParamType)
    (position : Nat) (operands : List (Operand E)) :
    (Args.readFrom missing types rest position operands).IsApart := by
  induction types generalizing position operands with
  | nil =>
    cases rest with
    | none => exact pure ()
    | some type => exact readRest type position operands
  | cons type types ih =>
    cases operands with
    | nil => exact ofExcept (.error missing)
    | cons operand operands =>
      exact bind (read type operand position) fun _ => bind (ih (position + 1) operands) fun _ => pure _

end EvalM.IsApart

/-! ## Worlds at some depth -/

/-- The world `u` is the world `w`, but for what has been printed, asked for and numbered, with session
`i` at the given depth under the given limit. -/
structure World.IsAt (w : World E) (i depth limit : Nat) (u : World E) : Prop where
  scopes : u.scopes = w.scopes
  sessions : u.sessions = (w.withDepth i depth limit).sessions

namespace World.IsAt

variable {w u : World E} {s : ScopeId} {i depth limit : Nat} {session : Session E}

/-- A world can be brought to any depth. -/
theorem withDepth (h : w.IsAt i depth limit u) (depth' limit' : Nat) :
    w.IsAt i depth' limit' (u.withDepth i depth' limit') where
  scopes := h.scopes
  sessions := by
    rw [← World.withDepth_withDepth w i depth limit depth' limit']
    simp only [World.withDepth, h.sessions]

/-- The session at its depth. -/
theorem own (h : w.IsAt i depth limit u) (hown : w.sessions[i]? = some session) :
    u.sessions[i]? = some (session.withDepth depth limit) := by
  rw [h.sessions, getElem?_withDepth, if_pos rfl, hown, Option.map_some]

/-- Nesting changes the depth alone. -/
theorem setDepth_eq (h : w.IsAt i depth limit u) (hown : w.sessions[i]? = some session)
    (depth' : Nat) : u.setDepth i depth' = u.withDepth i depth' limit :=
  (withDepth_maxDepth (h.own hown) depth').symm

/-- There is as much nesting to come as in the world itself at this depth. -/
theorem budget_eq (h : w.IsAt i depth limit u) :
    (w.withDepth i depth limit).budget = u.budget := by
  rw [World.budget, ← h.sessions, ← World.budget]

/-- A scope of the session has room for one more evaluation below the limit. -/
theorem hasRoom (h : w.IsAt i depth limit u) (hs : w.Houses s i)
    (hown : w.sessions[i]? = some session) (hdepth : depth < limit) :
    u.HasRoom s i (session.withDepth depth limit) where
  houses := by
    unfold Houses
    rw [h.scopes]
    exact hs
  own := h.own hown
  free := hdepth

/-- A name stands for the same at any depth. -/
theorem lookup_eq (h : w.IsAt i depth limit u) {name : String} {v : Value E}
    (hlookup : EvalM.lookup s name w = (.ok v, w)) : EvalM.lookup s name u = (.ok v, u) := by
  have hsame : EvalM.lookup s name u =
      ((EvalM.lookup s name (w.withDepth i depth limit)).1, u) := by
    have hscopes : u.scopes = (w.withDepth i depth limit).scopes := h.scopes
    have hfind := find?_of_scopes_eq hscopes s name
    simp only [EvalM.lookup, hfind, sessionOf?, hscopes, h.sessions]
    split
    · rfl
    · split <;> rfl
  have hruns := depthCorrespondence.runs_lookup w.sessions i 0 depth limit False s name w _ ⟨rfl, rfl⟩
  rw [hlookup] at hruns
  rw [hsame]
  generalize EvalM.lookup s name (w.withDepth i depth limit) = o at hruns ⊢
  cases hruns with
  | ok hv _ => rw [hv]

end World.IsAt

/-! ## Runs at two depths -/

/-- Where the first computation has a result at `depth` under `limit`, the second one has the same
result at `depth'` under `limit'` if there is room for `height` evaluations, and exhausts its limit
otherwise. -/
def NeedsRoom {α : Type} (w : World E) (i depth limit depth' limit' height : Nat) (m m' : EvalM E α) :
    Prop :=
  ∀ ⦃u u' : World E⦄ ⦃a : α⦄, w.IsAt i depth limit u → m u = (.ok a, u') →
    w.IsAt i depth limit u' ∧
    (depth' + height ≤ limit' →
      m' (u.withDepth i depth' limit') = (.ok a, u'.withDepth i depth' limit')) ∧
    (depth' ≤ limit' → limit' < depth' + height →
      (m' (u.withDepth i depth' limit')).1 = .error (.stackExhausted limit'))

namespace NeedsRoom

variable {α β : Type} {w : World E} {i depth limit depth' limit' height height' : Nat}

/-- What does not look at sessions needs no room. -/
theorem of_isApart {m : EvalM E α} (hm : m.IsApart) :
    NeedsRoom w i depth limit depth' limit' 0 m m := by
  intro u u' a hu hrun
  have hscopes : u'.scopes = u.scopes := by simpa only [hrun] using hm.scopes u
  have hsessions : u'.sessions = u.sessions := by simpa only [hrun] using hm.sessions_eq u
  have hother := hm.sessions u (u.withDepth i depth' limit').sessions
  rw [hrun] at hother
  have hworld : u'.withDepth i depth' limit' =
      { u' with sessions := (u.withDepth i depth' limit').sessions } := by
    simp only [World.withDepth, hsessions]
  refine ⟨⟨hscopes.trans hu.scopes, hsessions.trans hu.sessions⟩, fun _ => ?_, fun _ _ => ?_⟩
  · rw [hworld]
    exact hother
  · omega

/-- Looking up a name that is bound needs no room. -/
theorem lookup {s : ScopeId} {name : String} {v : Value E}
    (h : EvalM.lookup s name w = (.ok v, w)) :
    NeedsRoom w i depth limit depth' limit' 0 (EvalM.lookup s name) (EvalM.lookup s name) := by
  intro u u' a hu hrun
  rw [hu.lookup_eq h] at hrun
  cases hrun
  refine ⟨hu, fun _ => (hu.withDepth depth' limit').lookup_eq h, fun _ _ => ?_⟩
  omega

/-- What comes first and what comes after it need room for the higher of the two. -/
theorem bind {m m' : EvalM E α} {f f' : α → EvalM E β}
    (hm : NeedsRoom w i depth limit depth' limit' height m m')
    (hf : ∀ ⦃u u' : World E⦄ ⦃a : α⦄, w.IsAt i depth limit u → m u = (.ok a, u') →
      NeedsRoom w i depth limit depth' limit' height' (f a) (f' a)) :
    NeedsRoom w i depth limit depth' limit' (max height height') (m >>= f) (m' >>= f') := by
  intro u u' b hu hrun
  obtain ⟨a, u₁, hfirst, hrest⟩ := EvalM.exists_of_bind hrun
  obtain ⟨hu₁, hfits, hexhausts⟩ := hm hu hfirst
  obtain ⟨hu', hfits', hexhausts'⟩ := hf hu hfirst hu₁ hrest
  refine ⟨hu', fun hroom => ?_, fun hdepth hroom => ?_⟩
  · rw [run_bind_ok f' (hfits (by omega)), hfits' (by omega)]
  · -- The first part that does not fit exhausts the limit.
    by_cases hfirst' : depth' + height ≤ limit'
    · rw [run_bind_ok f' (hfits hfirst'), hexhausts' hdepth (by omega)]
    · rw [run_bind_error f' (Prod.ext (hexhausts hdepth (by omega)) rfl)]

end NeedsRoom

/-! ## Eager operations -/

variable [Embedding E]

/-- A function that gets its operands evaluated and does its work with them alone: it may ask for the
scope that it is called from, but evaluates nothing. -/
structure Body.WorksApart (body : Body E) : Prop where
  eager : body.signature.isLazy = false
  run_eq {caller caller' : Caller E} (h : caller.scope = caller'.scope)
    (operands : List (Operand E)) : body.run caller operands = body.run caller' operands
  isApart (caller : Caller E) (operands : List (Operand E)) : (body.run caller operands).IsApart

namespace Body.WorksApart

/-- The builtin operations work with their operands alone. -/
theorem builtin (b : Builtin) : (Body.builtin b : Body E).WorksApart where
  eager := by cases b <;> rfl
  run_eq {caller caller'} _ operands := by
    have hrun : (b.typed : Typed E).run caller = b.typed.run caller' := by cases b <;> rfl
    simp only [Body.run, Typed.invoke, hrun]
  isApart caller operands := by
    refine .bind (.readFrom ..) fun args => ?_
    cases b with
    | print => exact .bind (.print _) fun _ => .pure _
    | _ => exact .ofExcept _

/-- A function of payloads works with its operands alone if it does not look at sessions. -/
theorem passThrough {body : Body E} {run : List (Foreign E) → EvalM E (Foreign E)}
    (h : body.passThrough? = some run) (hrun : ∀ payloads, (run payloads).IsApart) :
    body.WorksApart where
  eager := by
    rw [(Body.run_of_passThrough? h).1]
    rfl
  run_eq _ operands := by
    rw [(Body.run_of_passThrough? h).2, (Body.run_of_passThrough? h).2]
    rfl
  isApart caller operands := by
    rw [(Body.run_of_passThrough? h).2]
    exact .bind (hrun _) fun _ => .bind .newId fun _ => .pure _

/-- The standard host functions work with their operands alone. -/
theorem host (f : HostFunction) : (Body.host f : Body E).WorksApart :=
  passThrough rfl fun payloads => .ofExcept (f.run payloads)

/-- A snapshot of the bindings in sight needs no evaluation. -/
theorem symbols : (Body.form .symbols : Body E).WorksApart where
  eager := rfl
  run_eq {caller caller'} h operands := by
    have hrun : (Form.symbols.typed : Typed E).run caller = Form.symbols.typed.run caller' := by
      simp only [Form.typed, h]
    simp only [Body.run, Typed.invoke, hrun]
  isApart caller operands :=
    .bind (.readFrom ..) fun _ => .bind (.bindings _) fun _ => .bind .newId fun _ => .pure _

end Body.WorksApart

/-- Whether a body is that of an eager builtin or of a host function. An embedder can add functions
that do anything; those that work with their operands alone count as host functions. -/
def Body.IsOperation : Body E → Prop
  | .builtin _ | .host _ | .form .symbols => True
  | .embedded e => (Body.embedded e).WorksApart
  | _ => False

/-- An operation works with its operands alone. -/
theorem Body.IsOperation.worksApart {body : Body E} (h : body.IsOperation) : body.WorksApart := by
  match body, h with
  | .builtin b, _ => exact .builtin b
  | .host f, _ => exact .host f
  | .form .symbols, _ => exact .symbols
  | .embedded _, h => exact h

/-- The word is no literal and stands for an operation, as seen from the scope. -/
def World.NamesOperation (w : World E) (s : ScopeId) (word : String) : Prop :=
  (Value.literal? word : Option (Value E)) = none ∧
    ∃ f : Function E, f.body.IsOperation ∧ EvalM.lookup s word w = (.ok (.function f), w)

/-- A literal, or a list of a word that stands for an operation and of expressions. -/
inductive Tree.IsExpression (w : World E) (s : ScopeId) : Tree → Prop
  | literal {word : String} {v : Value E} (h : Value.literal? word = some v) :
    IsExpression w s (.leaf word)
  | call {operator : String} {operands : Forest} (hoperator : w.NamesOperation s operator)
    (hoperands : ∀ operand ∈ operands, IsExpression w s operand) :
    IsExpression w s (.list (.leaf operator :: operands))

/-! ## One evaluation -/

/-- The evaluator for a world with one session at the given depth under the given limit. -/
def World.evaluatorAt (w : World E) (i depth limit : Nat) :
    ScopeId → Program → EvalM E (Value E) :=
  evaluateWithin (w.withDepth i depth limit).budget

namespace World.IsAt

variable {w u : World E} {s : ScopeId} {i depth limit : Nat} {session : Session E}

/-- In the world that it is for, the evaluator does what evaluation does. -/
theorem evaluatorAt_eq (h : w.IsAt i depth limit u) (p : Program) :
    w.evaluatorAt i depth limit s p u = evaluate s p u := by
  rw [evaluatorAt, h.budget_eq, evaluate]

/-- Below the limit, an evaluation takes a step with evaluations one level deeper. -/
theorem evaluatorAt_of_free (h : w.IsAt i depth limit u) (hs : w.Houses s i)
    (hown : w.sessions[i]? = some session) (hdepth : depth < limit) (p : Program) :
    w.evaluatorAt i depth limit s p u =
      ((step (w.evaluatorAt i (depth + 1) limit) s p (u.withDepth i (depth + 1) limit)).1,
        (step (w.evaluatorAt i (depth + 1) limit) s p
          (u.withDepth i (depth + 1) limit)).2.setDepth i depth) := by
  have hroom := h.hasRoom hs hown hdepth
  have hdeeper : u.setDepth i (depth + 1) = u.withDepth i (depth + 1) limit :=
    h.setDepth_eq hown (depth + 1)
  have hbudget : u.budget = (w.withDepth i (depth + 1) limit).budget + 1 := by
    rw [(h.withDepth (depth + 1) limit).budget_eq, ← hdeeper]
    exact (budget_setDepth hroom.own hroom.free).symm
  rw [h.evaluatorAt_eq, hroom.evaluate_eq hbudget, ← hdeeper]
  rfl

/-- At the limit, an evaluation exhausts it. -/
theorem evaluatorAt_of_full (h : w.IsAt i depth limit u) (hs : w.Houses s i)
    (hown : w.sessions[i]? = some session) (hdepth : ¬depth < limit) (p : Program) :
    w.evaluatorAt i depth limit s p u = (.error (.stackExhausted limit), u) := by
  obtain ⟨scope, hscope, rfl⟩ := hs
  rw [← h.scopes] at hscope
  rw [h.evaluatorAt_eq]
  exact evaluate_of_full (sessionOf?_eq_some hscope (h.own hown)) hdepth p

/-- A word that is no literal is looked up. -/
theorem lookup_of_evaluatorAt (h : w.IsAt i depth limit u) (hs : w.Houses s i)
    (hown : w.sessions[i]? = some session) {u' : World E} {v : Value E} {word : String}
    (hword : (Value.literal? word : Option (Value E)) = none)
    (hrun : w.evaluatorAt i depth limit s [.word word] u = (.ok v, u')) :
    EvalM.lookup s word u = (.ok v, u') := by
  by_cases hdepth : depth < limit
  · rw [h.evaluatorAt_eq, (h.hasRoom hs hown hdepth).evaluate_word, hword] at hrun
    exact hrun
  · rw [h.evaluatorAt_of_full hs hown hdepth] at hrun
    cases hrun

end World.IsAt

/-! ## Evaluations at two depths -/

namespace NeedsRoom

variable {w : World E} {s : ScopeId} {session : Session E} {i depth limit depth' limit' height : Nat}

/-- An evaluation takes one level more than what is nested in it. -/
theorem evaluatorAt (hs : w.Houses s i) (hown : w.sessions[i]? = some session) {p : Program}
    (h : NeedsRoom w i (depth + 1) limit (depth' + 1) limit' height
      (step (w.evaluatorAt i (depth + 1) limit) s p)
      (step (w.evaluatorAt i (depth' + 1) limit') s p)) :
    NeedsRoom w i depth limit depth' limit' (height + 1) (w.evaluatorAt i depth limit s p)
      (w.evaluatorAt i depth' limit' s p) := by
  intro u u' v hu hrun
  have hdepth : depth < limit := by
    by_contra hfull
    rw [hu.evaluatorAt_of_full hs hown hfull] at hrun
    cases hrun
  rw [hu.evaluatorAt_of_free hs hown hdepth] at hrun
  obtain ⟨hresult, rfl⟩ := Prod.mk.inj hrun
  obtain ⟨hinner, hfits, hexhausts⟩ := h (hu.withDepth (depth + 1) limit) (Prod.ext hresult rfl)
  have hat := hu.withDepth depth' limit'
  rw [World.withDepth_withDepth] at hfits hexhausts
  rw [hinner.setDepth_eq hown depth, World.withDepth_withDepth]
  refine ⟨hinner.withDepth depth limit, fun hroom => ?_, fun hle hroom => ?_⟩
  · rw [hat.evaluatorAt_of_free hs hown (by omega), World.withDepth_withDepth, hfits (by omega),
      (hinner.withDepth (depth' + 1) limit').setDepth_eq hown depth', World.withDepth_withDepth]
  · by_cases hdepth' : depth' < limit'
    · rw [hat.evaluatorAt_of_free hs hown hdepth', World.withDepth_withDepth]
      exact hexhausts hdepth' (by omega)
    · rw [hat.evaluatorAt_of_full hs hown hdepth']

/-- Forms that are evaluated in turn need room for the highest of them. -/
theorem evaluateAll {operands : Forest}
    (h : ∀ operand ∈ operands, NeedsRoom w i depth limit depth' limit' operand.height
      (w.evaluatorAt i depth limit s operand.tokens)
      (w.evaluatorAt i depth' limit' s operand.tokens)) :
    NeedsRoom w i depth limit depth' limit' operands.height
      (FlatLisp.evaluateAll (w.evaluatorAt i depth limit) s (operands.map Tree.tokens))
      (FlatLisp.evaluateAll (w.evaluatorAt i depth' limit') s (operands.map Tree.tokens)) := by
  induction operands with
  | nil => exact of_isApart (.pure [])
  | cons operand operands ih =>
    obtain ⟨hfirst, hrest⟩ := List.forall_mem_cons.mp h
    rw [Forest.height, ← Nat.max_zero (Forest.height operands)]
    exact hfirst.bind fun _ _ v _ _ => (ih hrest).bind fun _ _ values _ _ =>
      of_isApart (.pure (.value v :: values))

/-- Calling a function that works with its operands alone needs no room. -/
theorem callWithin {f : Function E} (hf : f.body.WorksApart) (operands : List (Operand E)) :
    NeedsRoom w i depth limit depth' limit' 0
      (f.callWithin (w.evaluatorAt i depth limit) s (Embedding.directCalls E + 1) operands)
      (f.callWithin (w.evaluatorAt i depth' limit') s (Embedding.directCalls E + 1) operands) := by
  have hcall : f.callWithin (w.evaluatorAt i depth' limit') s (Embedding.directCalls E + 1) operands =
      f.callWithin (w.evaluatorAt i depth limit) s (Embedding.directCalls E + 1) operands := by
    refine congrArg (EvalM.ofExcept (f.signature.adapt operands) >>= ·) (funext fun adapted => ?_)
    exact hf.run_eq (by rfl) adapted
  rw [hcall]
  exact of_isApart (.bind (.ofExcept _) fun adapted => hf.isApart _ adapted)

end NeedsRoom

/-- An expression needs room for its height. -/
theorem Tree.IsExpression.needsRoom {w : World E} {s : ScopeId} {i : Nat} {session : Session E}
    (hs : w.Houses s i) (hown : w.sessions[i]? = some session) {tree : Tree}
    (htree : tree.IsExpression w s) (depth limit depth' limit' : Nat) :
    NeedsRoom w i depth limit depth' limit' tree.height (w.evaluatorAt i depth limit s tree.tokens)
      (w.evaluatorAt i depth' limit' s tree.tokens) := by
  induction htree generalizing depth depth' with
  | @literal word v hliteral =>
    refine .evaluatorAt hs hown ?_
    simp only [Tree.tokens, step, evaluateToken, hliteral]
    exact .of_isApart (.pure v)
  | @call operator operands hoperator hoperands ih =>
    obtain ⟨hword, f, hf, hlookup⟩ := hoperator
    refine .evaluatorAt hs hown ?_
    rw [step_list, step_list, evaluateCombination, evaluateCombination, Forest.height]
    refine .bind (.evaluatorAt hs hown ?_) fun u u' v hu hrun => ?_
    · simp only [step, evaluateToken, hword]
      exact .lookup hlookup
    · -- The operator can only be the operation, so what follows is a call of that.
      have hoperator := hu.lookup_of_evaluatorAt hs hown hword hrun
      rw [hu.lookup_eq hlookup] at hoperator
      cases hoperator
      have heager : f.signature.isLazy = false := hf.worksApart.eager
      simp only [resolveOperator, pure_bind, heager, Bool.false_eq_true, ↓reduceIte]
      rw [← Nat.max_zero (Forest.height operands)]
      exact .bind (.evaluateAll fun operand hmem => ih operand hmem _ _) fun _ _ _ _ _ =>
        .callWithin hf.worksApart _

/-- An expression nests as many evaluations as its height says. If it has a value when no limit cuts it
short, which is to say at some depth under some limit, then it has the same value at any depth under any
limit that leaves room for its height, and under any other limit it exhausts this limit. -/
theorem expressions_nest_to_height {w : World E} {s : ScopeId} {i : Nat} (hs : w.Houses s i)
    {tree : Tree} (htree : tree.IsExpression w s) {depth₀ limit₀ : Nat} {v : Value E}
    (h : (evaluate s tree.tokens (w.withDepth i depth₀ limit₀)).1 = .ok v) (depth limit : Nat) :
    (evaluate s tree.tokens (w.withDepth i depth limit)).1 =
      if depth + tree.height ≤ limit then .ok v else .error (.stackExhausted limit) := by
  cases hown : w.sessions[i]? with
  | none =>
    obtain ⟨scope, hscope, rfl⟩ := hs
    have hlost : (w.withDepth scope.session depth₀ limit₀).sessionOf? s = none := by
      apply World.sessionOf?_withDepth_of_lost
      rw [World.sessionOf?, hscope, Option.bind_some, hown]
    rw [evaluate_of_lost hlost] at h
    cases h
  | some session =>
    have hat : ∀ depth limit, w.IsAt i depth limit (w.withDepth i depth limit) :=
      fun depth limit => ⟨rfl, rfl⟩
    rw [← (hat depth₀ limit₀).evaluatorAt_eq] at h
    rw [← (hat depth limit).evaluatorAt_eq]
    obtain ⟨-, hfits, hexhausts⟩ := htree.needsRoom hs hown depth₀ limit₀ depth limit (hat depth₀ limit₀)
      (Prod.ext h rfl)
    rw [World.withDepth_withDepth] at hfits hexhausts
    split
    · next hroom => rw [hfits hroom]
    · next hroom =>
      by_cases hdepth : depth ≤ limit
      · exact hexhausts hdepth (by omega)
      · rw [(hat depth limit).evaluatorAt_of_full hs hown (by omega)]

/-- The sample functions on payloads count as host functions. -/
theorem Embed.HostSample.isOperation (f : Embed.HostSample) :
    (Body.embedded (.host f) : Body Embed.Sample).IsOperation := by
  have hrun : (Body.embedded (.host f) : Body Embed.Sample).passThrough? = some f.run := rfl
  refine Body.WorksApart.passThrough hrun fun payloads => ?_
  cases f with
  | textLength =>
    simp only [Embed.HostSample.run]
    split
    · exact .pure _
    · exact .ofExcept (.error _)
  | object => exact .bind .newId fun _ => .pure _
  | fail => exact .ofExcept (.error _)
  | _ => exact .pure _

/-- A session whose root binds addition, and that knows the host function `echo`. -/
def addingSession : World Embed.Sample where
  scopes := #[⟨[("+", .function ⟨0, none, .builtin .add⟩)], none, 0⟩]
  sessions := #[⟨Registry.host [(("", "echo"), ⟨1, none, .embedded (.host .echo)⟩)], .disabled,
    false, 9, 0, false⟩]
  nextId := 2
  printed := ""
  requested := []

/-- The whole number that a run ended with. -/
def wholeResult? {E : Type} : Except Error (Value E) → Option Int64
  | .ok (.int n) => some n
  | _ => none

theorem ok_of_wholeResult? {E : Type} {outcome : Except Error (Value E)} {n : Int64}
    (h : wholeResult? outcome = some n) : outcome = .ok (.int n) := by
  unfold wholeResult? at h
  split at h
  · cases h
    rfl
  · cases h

/-- The height of `(+ 1 (echo (+ 2 3)))` is 4, so a limit of 4 is just enough. -/
theorem expressions_nest_to_height_addingSession :
    let tree : Tree := .list [.leaf "+", .leaf "1",
      .list [.leaf "echo", .list [.leaf "+", .leaf "2", .leaf "3"]]]
    tree.height = 4 ∧
      (evaluate 0 tree.tokens (addingSession.withDepth 0 0 4)).1 = .ok (.int 6) ∧
      (evaluate 0 tree.tokens (addingSession.withDepth 0 0 3)).1 = .error (.stackExhausted 3) := by
  intro tree
  have hadd : addingSession.NamesOperation 0 "+" :=
    ⟨rfl, ⟨0, none, .builtin .add⟩, trivial, rfl⟩
  have hecho : addingSession.NamesOperation 0 "echo" :=
    ⟨rfl, ⟨1, none, .embedded (.host .echo)⟩, Embed.HostSample.isOperation .echo, rfl⟩
  have hone : (Tree.leaf "1").IsExpression addingSession 0 := .literal (v := .int 1) rfl
  have htwo : (Tree.leaf "2").IsExpression addingSession 0 := .literal (v := .int 2) rfl
  have hthree : (Tree.leaf "3").IsExpression addingSession 0 := .literal (v := .int 3) rfl
  have hsum : (Tree.list [.leaf "+", .leaf "2", .leaf "3"]).IsExpression addingSession 0 :=
    .call hadd (by simp [htwo, hthree])
  have htree : tree.IsExpression addingSession 0 :=
    .call hadd (by simp [hone, Tree.IsExpression.call hecho, hsum])
  have hs : addingSession.Houses 0 0 := ⟨_, rfl, rfl⟩
  have hvalue : (evaluate 0 tree.tokens (addingSession.withDepth 0 0 9)).1 = .ok (.int 6) :=
    ok_of_wholeResult? (by decide +kernel)
  have hheight : tree.height = 4 := rfl
  have h := expressions_nest_to_height hs htree hvalue 0
  exact ⟨hheight, (h 4).trans (if_pos (by decide)), (h 3).trans (if_neg (by decide))⟩

end FlatLisp
