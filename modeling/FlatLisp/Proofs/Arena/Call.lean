import FlatLisp.Proofs.Arena.Refinement
import FlatLisp.Proofs.Naming

/-!
# Calls of closures as operations

Evaluation is a client of the memory that holds its scopes. Where it calls a closure, it holds the
scope that the closure was defined in, holds a new scope below, and binds the formals there, each to
an argument that it holds. These are operations, and the world in which the body is then evaluated is
the one that they lead to. So what is known of clients holds for calls: no sweep is seen, and the
memory goes on to mirror the world.
-/

namespace FlatLisp

variable {E : Type}

/-- Carry out operations one after the other, as long as they can be done. -/
def performAll {S : Type} (perform : S → Operation E → Option (Value E × S)) :
    (start : S) → List (Operation E) → Option S
  | s, [] => some s
  | s, op :: ops => (perform s op).bind fun result => performAll perform result.2 ops

/-- The operations of a call of the closure at place `j`, before its body is evaluated. The values
for the formals are held at `places`, and `held` handles are there so far. -/
def callOperations (held j : Nat) (formals : List String) (places : List Nat) : List (Operation E) :=
  .enter j :: .child held ::
    (formals.zip places).map fun entry => .bind (held + 1) entry.1 entry.2

/-- Operations that can be done in a world can be done in a memory that mirrors it, which then mirrors
the world that they lead to. -/
theorem Mirrors.exists_performAll {place : Nat → ScopeId} {m : Memory E} {c c' : Unswept E}
    (h : Mirrors place m c) (hs : m.IsSound) {ops : List (Operation E)}
    (hops : performAll Unswept.perform c ops = some c') :
    ∃ m' place', performAll Memory.perform m ops = some m' ∧ m'.IsSound ∧ Mirrors place' m' c' := by
  induction ops generalizing place m c with
  | nil =>
    cases hops
    exact ⟨m, place, rfl, hs, h⟩
  | cons op ops ih =>
    obtain ⟨result, hresult, hrest⟩ := Option.bind_eq_some_iff.mp hops
    have hrel := h.rel_perform hs op
    rw [hresult] at hrel
    cases hfirst : m.perform op with
    | none =>
      rw [hfirst] at hrel
      cases hrel
    | some first =>
      rw [hfirst] at hrel
      cases hrel with
      | some hagree =>
        obtain ⟨-, place₁, h₁⟩ := hagree
        rw [performAll, hfirst]
        exact ih h₁ (hs.perform hfirst) hrest

namespace Unswept

/-- Names are bound to values that are held, one after the other. -/
theorem performAll_bind {c : Unswept E} {s : ScopeId} {i : Nat} (hs : c.handles[i]? = some s)
    {values : List (Value E)} (hvalues : c.values = values) (formals : List String)
    {places : List Nat} {args : List (Value E)}
    (hargs : List.Forall₂ (fun j v => values[j]? = some v) places args) :
    ∃ w, bindAll s (formals.zip args) c.world = (.ok (), w) ∧ w.sessions = c.world.sessions ∧
      performAll perform c ((formals.zip places).map fun entry => .bind i entry.1 entry.2) =
        some { c with world := w } := by
  induction hargs generalizing formals c with
  | nil =>
    rw [List.zip_nil_right, List.zip_nil_right]
    exact ⟨c.world, rfl, rfl, rfl⟩
  | @cons j v places args hv hargs ih =>
    cases formals with
    | nil => exact ⟨c.world, rfl, rfl, rfl⟩
    | cons name formals =>
      let c₁ : Unswept E := { c with world := c.world.bind s name v }
      have hfirst : c.perform (.bind i name j) = some (.empty, c₁) := by
        simp only [perform, hs, hvalues, hv, Option.bind_eq_bind, Option.bind_some]
        rfl
      obtain ⟨w, hbind, hsessions, hrest⟩ := ih (c := c₁) hs hvalues formals
      refine ⟨w, hbind, hsessions, ?_⟩
      rw [List.zip_cons_cons, List.map_cons, performAll, hfirst]
      exact hrest

/-- The operations of a call can be carried out while something is held. They hold the scope that the
closure `v` was defined in and a new one below, which binds the formals to the arguments. -/
theorem performAll_callOperations {c : Unswept E} (hheld : c.handles ≠ []) {v : Value E} {j : Nat}
    (hv : c.values[j]? = some v) {t : ScopeId} (hcaptured : v.captured? = some t) {scope : Scope E}
    (hscope : c.world.scopes[t]? = some scope) (hown : scope.session = 0) (formals : List String)
    {places : List Nat} {args : List (Value E)}
    (hargs : List.Forall₂ (fun j v => c.values[j]? = some v) places args) :
    let inner : ScopeId := c.world.scopes.size
    ∃ w, bindAll inner (formals.zip args) (c.world.pushScope ⟨[], some t, scope.session⟩).1 =
        (.ok (), w) ∧
      w.sessions = c.world.sessions ∧
      performAll perform c (callOperations c.handles.length j formals places) =
        some ⟨⟨c.handles ++ [t, inner], c.values⟩, w⟩ := by
  intro inner
  let entered : Unswept E := c.hold t
  let opened : Unswept E :=
    ⟨⟨c.handles ++ [t, inner], c.values⟩, (c.world.pushScope ⟨[], some t, scope.session⟩).1⟩
  have henter : c.perform (.enter j) = some (.empty, entered) := by
    simp only [perform, hv, hcaptured, hscope, hown, guard, hheld, ne_eq, not_false_eq_true,
      ↓reduceIte, Option.bind_eq_bind, Option.bind_some]
    rfl
  have hchild : entered.perform (.child c.handles.length) = some (.empty, opened) := by
    have hhandle : entered.handles[c.handles.length]? = some t := by simp [entered, hold]
    have hpushed : EvalM.child t entered.world = (.ok inner, opened.world) := by
      simp only [EvalM.child, entered, hold, hscope]
      rfl
    simp only [perform, hhandle, Option.bind_eq_bind, Option.bind_some, hpushed]
    simp [hold, entered, opened]
  have hinner : opened.handles[c.handles.length + 1]? = some inner := by simp [opened]
  obtain ⟨w, hbind, hsessions, hbound⟩ := performAll_bind (c := opened) hinner rfl formals hargs
  refine ⟨w, hbind, hsessions, ?_⟩
  simp only [callOperations, performAll, henter, hchild, Option.bind_some]
  exact hbound

end Unswept

variable [Embedding E]

/-- A call of a closure with a value for each formal is a run of operations, and then the evaluation
of its body. Let the closure and the values be held, and let the session go on. Then the operations
can be carried out, in the world as in a memory that mirrors it. They hold two more scopes, that of
the closure and a new one; the call evaluates the body in the new scope, in the world that they lead
to; and the memory mirrors that world. -/
theorem call_closure_performed {place : Nat → ScopeId} {m : Memory E} {c : Unswept E}
    (h : Mirrors place m c) (hs : m.IsSound) (hheld : c.handles ≠ []) {session : Session E}
    (hsession : c.world.sessions[0]? = some session) (hlive : session.ended = false) {j id : Nat}
    {label : Option String} {formals : List String} {program : Program} {t : ScopeId}
    (hclosure : c.values[j]? = some (.function ⟨id, label, .closure formals program t⟩))
    {scope : Scope E} (hscope : c.world.scopes[t]? = some scope) (hown : scope.session = 0)
    {places : List Nat} {args : List (Value E)}
    (hargs : List.Forall₂ (fun j v => c.values[j]? = some v) places args)
    (hlength : args.length = formals.length) (s : ScopeId) :
    let operations := callOperations c.handles.length j formals places
    let inner : ScopeId := c.world.scopes.size
    ∃ m' c' place', performAll Memory.perform m operations = some m' ∧
      performAll Unswept.perform c operations = some c' ∧
      m'.IsSound ∧ Mirrors place' m' c' ∧
      c'.handles = c.handles ++ [t, inner] ∧ c'.values = c.values ∧
      Function.call ⟨id, label, .closure formals program t⟩ s (args.map .value) c.world =
        evaluate inner program c'.world := by
  intro operations inner
  obtain ⟨w, hbind, hsessions, hrun⟩ :=
    Unswept.performAll_callOperations hheld hclosure rfl hscope hown formals hargs
  obtain ⟨m', place', hm', hsound, hmirrors⟩ := h.exists_performAll hs hrun
  have hresolved : EvalM.session t c.world = (.ok session, c.world) := by
    rw [EvalM.session, World.sessionOf?_eq_some hscope (hown ▸ hsession)]
    simp [hlive]
  exact ⟨m', _, place', hm', hrun, hsound, hmirrors, rfl, rfl,
    call_closure_eq hresolved hscope id label program s hlength hbind hsessions⟩

-- A call of a closure that was made in the root takes one slot more.
example :
    let closure : Operation Empty := .capture 0 none ["x"] [.word "x"]
    let operations := closure :: .take (.int 1) :: callOperations 1 0 ["x"] [1]
    (performAll Memory.perform Memory.start operations).map (fun m => m.live) = some 2 := by
  cbv

end FlatLisp
