import FlatLisp.Proofs.Simulation.Renaming

/-!
# Closed worlds

In a closed world every function and object that is bound somewhere has been given its number, every
closure was defined in a scope that exists, and parents stand in front of their children. Evaluation
leads from closed worlds to closed worlds. What it yields exists in the world that it leaves, though
not always in the world that it started in, so `Keeps` says what a computation does in all worlds
that a given one can grow into.
-/

namespace FlatLisp

open Correspondence

variable {E : Type}

/-- Whether the number of a function has been given and its scope exists. -/
def Function.IsKnown (w : World E) (f : Function E) : Prop :=
  f.id < w.nextId ∧ ∀ t, f.scope? = some t → t < w.scopes.size

/-- Whether what a value refers to exists. -/
def Value.IsKnown (w : World E) : Value E → Prop
  | .function f => f.IsKnown w
  | .object o => o.id < w.nextId
  | _ => True

namespace World

variable {w w' : World E}

/-- Worlds that a world can grow into. -/
structure Grows (w w' : World E) : Prop where
  scopes : w.scopes.size ≤ w'.scopes.size
  ids : w.nextId ≤ w'.nextId

/-- A world is grown to begin with. -/
theorem Grows.refl (w : World E) : w.Grows w :=
  ⟨Nat.le_refl _, Nat.le_refl _⟩

/-- Worlds grow on. -/
theorem Grows.trans {w'' : World E} (h : w.Grows w') (h' : w'.Grows w'') : w.Grows w'' :=
  ⟨Nat.le_trans h.scopes h'.scopes, Nat.le_trans h.ids h'.ids⟩

/-- A world grows by a scope. -/
theorem grows_pushScope (w : World E) (scope : Scope E) : w.Grows (w.pushScope scope).1 :=
  ⟨by simp [World.pushScope], Nat.le_refl _⟩

/-- What exists in a world, compared with itself. No two worlds are compared. -/
def known (w : World E) : Correspondence E where
  Ids a b := a = b ∧ a < w.nextId
  Captures s t := s = t ∧ s < w.scopes.size
  Admits _ := True
  Objects o o' := o = o' ∧ o.id < w.nextId
  Scopes s t := s = t ∧ s < w.scopes.size
  Worlds _ _ := False
  Failures _ _ _ _ := True
  Cut _ _ := False

/-- What is compared in a single world is the same. -/
theorem known_isFaithful (w : World E) : w.known.IsFaithful :=
  ⟨And.left, And.left, And.left⟩

/-- Signatures, parameters and host functions pass on what exists. -/
def knownSimulation (w : World E) : Simulation E where
  toCorrespondence := w.known
  ids_unique ha hb := by rw [ha.1, hb.1]
  objects_ids ho := ⟨congrArg _ ho.1, ho.2⟩
  objects_text ho := congrArg _ ho.1
  objects_plain ha text := ⟨congrArg (ObjectOf.mk · text none) ha.1, ha.2⟩
  objects_snapshot := by
    intro a a' entries entries' ha he
    have heq : List.Forall₂ Eq entries entries' :=
      he.imp fun _ _ hentry => Prod.ext hentry.1 (w.known_isFaithful.eq_of_values hentry.2)
    rw [List.forall₂_eq_eq_eq] at heq
    exact ⟨by rw [ha.1, heq], ha.2⟩
  admits_split _ _ := trivial
  admits_substitute _ _ := trivial
  captures_of_scopes := id
  fail _ _ := trivial
  malformed _ _ _ _ := trivial
  newId _ _ := False.elim
  print _ _ _ := False.elim
  bind _ _ _ _ _ := False.elim
  child _ _ _ := False.elim
  session _ _ _ := False.elim
  source _ _ _ _ := False.elim
  lookup _ _ _ _ := False.elim
  bindings _ _ _ := False.elim
  hasLocal _ _ := False.elim
  isRoot _ := False.elim

/-- What exists in a world exists in all worlds that it can grow into. -/
theorem Grows.refines (h : w.Grows w') : w.known.Refines w'.known where
  ids ha := ⟨ha.1, Nat.lt_of_lt_of_le ha.2 h.ids⟩
  captures hs := ⟨hs.1, Nat.lt_of_lt_of_le hs.2 h.scopes⟩
  admits := id
  objects ho := ⟨ho.1, Nat.lt_of_lt_of_le ho.2 h.ids⟩

/-- Whether a value exists in a world. -/
def Knows (w : World E) (v : Value E) : Prop :=
  w.known.Values v v

/-- Whether operands exist in a world. -/
def KnowsAll (w : World E) (operands : List (Operand E)) : Prop :=
  List.Forall₂ w.known.Operands operands operands

/-- A function exists if its number has been given and its scope exists. -/
theorem known_functions_iff {f : Function E} : w.known.Functions f f ↔ f.IsKnown w := by
  obtain ⟨id, label, body⟩ := f
  constructor
  · intro h
    refine ⟨h.ids.2, fun t ht => ?_⟩
    cases h.bodies with
    | closure formals _ hs =>
      cases ht
      exact hs.2
    | _ => cases ht
  · intro h
    refine ⟨⟨rfl, h.1⟩, rfl, ?_⟩
    cases body with
    | form f => exact .form f
    | builtin b => exact .builtin b
    | host f => exact .host f
    | closure formals p t => exact .closure formals trivial ⟨rfl, h.2 t rfl⟩
    | template formals p => exact .template formals trivial
    | embedded e => exact .embedded e

/-- A value exists if what it refers to does. -/
theorem knows_iff {v : Value E} : w.Knows v ↔ v.IsKnown w := by
  cases v with
  | bool b => exact ⟨fun _ => trivial, fun _ => .bool b⟩
  | int n => exact ⟨fun _ => trivial, fun _ => .int n⟩
  | float x => exact ⟨fun _ => trivial, fun _ => .float x⟩
  | complex z => exact ⟨fun _ => trivial, fun _ => .complex z⟩
  | symbol text => exact ⟨fun _ => trivial, fun _ => .symbol text⟩
  | empty => exact ⟨fun _ => trivial, fun _ => .empty⟩
  | function f =>
    constructor
    · intro h
      cases h with
      | function hf => exact known_functions_iff.mp hf
    · exact fun h => .function (known_functions_iff.mpr h)
  | object o =>
    constructor
    · intro h
      cases h with
      | object ho => exact ho.2
    · exact fun h => .object ⟨rfl, h⟩

/-! ## Closed worlds -/

/-- What is bound or offered by a host exists, and parents stand in front of their children. -/
structure IsClosed (w : World E) : Prop where
  tables {s : ScopeId} {scope : Scope E} {entry : String × Value E} (hs : w.scopes[s]? = some scope)
    (he : entry ∈ scope.table) : w.Knows entry.2
  hosts {session : Session E} (hs : session ∈ w.sessions) {f : Function E}
    (hf : session.host.Offers f) : w.known.Functions f f
  ordered : w.IsOrdered

namespace IsClosed

/-- A closed world stays closed when it grows without a change to its scopes and hosts. -/
theorem of_grows (h : w.IsClosed) (hgrows : w.Grows w') (hscopes : w'.scopes = w.scopes)
    (hsessions : w'.sessions = w.sessions) : w'.IsClosed where
  tables hs he := hgrows.refines.values (h.tables (hscopes ▸ hs) he)
  hosts hs _ hf := hgrows.refines.functions (h.hosts (hsessions ▸ hs) hf)
  ordered := by
    unfold IsOrdered
    rw [hscopes]
    exact h.ordered

/-- What exists may be bound. -/
theorem bind (h : w.IsClosed) (s : ScopeId) (name : String) {v : Value E} (hv : w.Knows v) :
    (w.bind s name v).IsClosed := by
  have hgrows : w.Grows (w.bind s name v) := ⟨Nat.le_of_eq (size_bind w s name v).symm, Nat.le_refl _⟩
  refine ⟨fun {t scope entry} hscope hentry => ?_, fun hs _ hf => ?_, h.ordered.bind s name v⟩
  · rw [getElem?_bind] at hscope
    split at hscope
    · obtain ⟨before, hbefore, rfl⟩ := Option.map_eq_some_iff.mp hscope
      rcases Table.mem_insert hentry with rfl | hold
      · exact hgrows.refines.values hv
      · exact hgrows.refines.values (h.tables hbefore hold)
    · exact hgrows.refines.values (h.tables hscope hentry)
  · exact hgrows.refines.functions (h.hosts hs hf)

/-- A scope without bindings may be added below one that exists. -/
theorem pushScope (h : w.IsClosed) {scope : Scope E} (htable : scope.table = [])
    (hparent : ∀ parent, scope.parent = some parent → parent < w.scopes.size) :
    (w.pushScope scope).1.IsClosed := by
  have hgrows := w.grows_pushScope scope
  refine ⟨fun {t found entry} hfound hentry => ?_, fun hs _ hf => ?_, h.ordered.pushScope hparent⟩
  · rw [getElem?_pushScope] at hfound
    split at hfound
    · cases hfound
      rw [htable] at hentry
      cases hentry
    · exact hgrows.refines.values (h.tables hfound hentry)
  · exact hgrows.refines.functions (h.hosts hs hf)

/-- Nothing counts of sessions but their hosts. -/
theorem of_hosts (h : w.IsClosed) (hscopes : w'.scopes = w.scopes) (hids : w'.nextId = w.nextId)
    (hhosts : ∀ session ∈ w'.sessions, ∃ before ∈ w.sessions, session.host = before.host) :
    w'.IsClosed := by
  have hgrows : w.Grows w' := ⟨Nat.le_of_eq (by rw [hscopes]), Nat.le_of_eq hids.symm⟩
  refine ⟨fun hs he => hgrows.refines.values (h.tables (hscopes ▸ hs) he), fun hs _ hf => ?_, ?_⟩
  · obtain ⟨before, hbefore, heq⟩ := hhosts _ hs
    exact hgrows.refines.functions (h.hosts hbefore (heq ▸ hf))
  · unfold IsOrdered
    rw [hscopes]
    exact h.ordered

/-- Sessions may be nested. -/
theorem setDepth (h : w.IsClosed) (session depth : Nat) : (w.setDepth session depth).IsClosed := by
  refine h.of_hosts rfl rfl fun session hsession => ?_
  obtain ⟨before, hbefore, heq⟩ := exists_of_mem_setDepth hsession
  exact ⟨before, hbefore, by rw [heq]⟩

end IsClosed

end World

/-! ## Computations that keep worlds closed -/

variable {α β : Type} {w : World E} {Q : World E → α → Prop} {R : World E → β → Prop}

/-- What a computation leaves that started in `w`: a closed world that `w` has grown into, with the
same sessions, and a result as `Q` says, if any. -/
structure Kept (w : World E) (Q : World E → α → Prop) (o : Except Error α × World E) : Prop where
  grows : w.Grows o.2
  closed : o.2.IsClosed
  sessions : o.2.sessions = w.sessions
  result {a : α} (h : o.1 = .ok a) : Q o.2 a

/-- Computations that keep closed worlds closed that `w` can grow into. -/
def Keeps (w : World E) (Q : World E → α → Prop) (m : EvalM E α) : Prop :=
  ∀ v, w.Grows v → v.IsClosed → Kept v Q (m v)

/-- What a computation that keeps worlds closed yields may be described more coarsely. -/
theorem Keeps.mono {Q' : World E → α → Prop} {m : EvalM E α} (h : Keeps w Q m)
    (hQ : ∀ v a, Q v a → Q' v a) : Keeps w Q' m := by
  intro v hgrows hclosed
  have hkept := h v hgrows hclosed
  exact ⟨hkept.grows, hkept.closed, hkept.sessions, fun hok => hQ _ _ (hkept.result hok)⟩

/-- A result that is right in every world to come. -/
theorem keeps_pure {a : α} (h : ∀ v, w.Grows v → Q v a) : Keeps w Q (pure a) := by
  intro v hgrows hclosed
  refine ⟨.refl v, hclosed, rfl, fun hok => ?_⟩
  cases hok
  exact h v hgrows

/-- A failure changes nothing. -/
theorem keeps_throw (e : Error) : Keeps w Q (throw e : EvalM E α) :=
  fun v _ hclosed => ⟨.refl v, hclosed, rfl, nofun⟩

/-- A result that does not depend on the world. -/
theorem keeps_ofExcept {r : Except Error α} (h : ∀ a v, r = .ok a → w.Grows v → Q v a) :
    Keeps w Q (EvalM.ofExcept r) :=
  fun v hgrows hclosed => ⟨.refl v, hclosed, rfl, fun hok => h _ v hok hgrows⟩

/-- Computations one after the other. -/
theorem keeps_bind {m : EvalM E α} {f : α → EvalM E β} (hm : Keeps w Q m)
    (hf : ∀ v a, w.Grows v → Q v a → Keeps v R (f a)) : Keeps w R (m >>= f) := by
  intro v hgrows hclosed
  have hfirst := hm v hgrows hclosed
  cases hrun : m v with
  | mk result v₁ =>
    rw [hrun] at hfirst
    cases result with
    | error e =>
      rw [run_bind_error f hrun]
      exact ⟨hfirst.grows, hfirst.closed, hfirst.sessions, nofun⟩
    | ok a =>
      rw [run_bind_ok f hrun]
      have hnext := hf v₁ a (hgrows.trans hfirst.grows) (hfirst.result rfl) v₁ (.refl v₁) hfirst.closed
      exact ⟨hfirst.grows.trans hnext.grows, hnext.closed, hnext.sessions.trans hfirst.sessions,
        hnext.result⟩

/-! ## Primitives -/

/-- The number given exists from then on. -/
theorem keeps_newId : Keeps w (fun v a => v.known.Ids a a) EvalM.newId := by
  intro v _ hclosed
  have hgrows : v.Grows { v with nextId := v.nextId + 1 } := ⟨Nat.le_refl _, Nat.le_succ _⟩
  refine ⟨hgrows, hclosed.of_grows hgrows rfl rfl, rfl, fun hok => ?_⟩
  cases hok
  exact ⟨rfl, Nat.lt_succ_self _⟩

/-- Printing changes nothing that is bound. -/
theorem keeps_print (text : String) : Keeps w (fun _ _ => True) (EvalM.print text) := by
  intro v _ hclosed
  have hgrows : v.Grows { v with printed := v.printed ++ text } := ⟨Nat.le_refl _, Nat.le_refl _⟩
  exact ⟨hgrows, hclosed.of_grows hgrows rfl rfl, rfl, fun _ => trivial⟩

/-- Asking for a source changes nothing that is bound. -/
theorem keeps_load (loader : Loader) (path : String) :
    Keeps w (fun _ _ => True) (EvalM.load loader path) := by
  intro v _ hclosed
  have hgrows : v.Grows { v with requested := path :: v.requested } :=
    ⟨Nat.le_refl _, Nat.le_refl _⟩
  exact ⟨hgrows, hclosed.of_grows hgrows rfl rfl, rfl, fun _ => trivial⟩

/-- What exists may be bound. -/
theorem keeps_bindName (s : ScopeId) (name : String) {u : Value E} (hu : w.Knows u) :
    Keeps w (fun _ _ => True) (EvalM.bind s name u) := by
  intro v hgrows hclosed
  have hbound : v.Grows (v.bind s name u) :=
    ⟨Nat.le_of_eq (World.size_bind v s name u).symm, Nat.le_refl _⟩
  exact ⟨hbound, hclosed.bind s name (hgrows.refines.values hu), rfl, fun _ => trivial⟩

/-- A new scope exists from then on. -/
theorem keeps_child (s : ScopeId) :
    Keeps w (fun v t => t < v.scopes.size) (EvalM.child s) := by
  intro v _ hclosed
  unfold EvalM.child
  cases hscope : v.scopes[s]? with
  | none => exact ⟨.refl v, hclosed, rfl, nofun⟩
  | some scope =>
    have hs := (Array.getElem?_eq_some_iff.mp hscope).1
    refine ⟨v.grows_pushScope _, hclosed.pushScope rfl fun parent hparent => ?_, rfl, fun hok => ?_⟩
    · cases hparent
      exact hs
    · cases hok
      simp [World.pushScope]

/-- Finding a session changes nothing. -/
theorem keeps_session (s : ScopeId) : Keeps w (fun _ _ => True) (EvalM.session s) := by
  intro v _ hclosed
  rcases EvalM.session_cases s v with ⟨session, -, hfound⟩ | hlost
  · rw [hfound]
    exact ⟨.refl v, hclosed, rfl, fun _ => trivial⟩
  · rw [hlost]
    exact ⟨.refl v, hclosed, rfl, nofun⟩

/-- Listing bindings changes nothing. -/
theorem keeps_bindings (s : ScopeId) : Keeps w (fun _ _ => True) (EvalM.bindings s) :=
  fun v _ hclosed => ⟨.refl v, hclosed, rfl, fun _ => trivial⟩

/-- What is found exists. -/
theorem keeps_lookup (s : ScopeId) (name : String) : Keeps w World.Knows (EvalM.lookup s name) := by
  intro v _ hclosed
  unfold EvalM.lookup
  cases hfound : v.find? s name with
  | some u =>
    obtain ⟨t, scope, hscope, hentry⟩ := World.exists_scope_of_find? hfound
    refine ⟨.refl v, hclosed, rfl, fun hok => ?_⟩
    cases hok
    exact hclosed.tables hscope hentry
  | none =>
    cases hhost : (v.sessionOf? s).bind fun session => session.host.resolve? name with
    | none => exact ⟨.refl v, hclosed, rfl, nofun⟩
    | some f =>
      obtain ⟨session, hsession, hf⟩ := World.exists_host_of_resolve? hhost
      refine ⟨.refl v, hclosed, rfl, fun hok => ?_⟩
      cases hok
      exact .function (hclosed.hosts hsession hf)

/-- One more level of nesting. What runs there runs in a scope that exists. -/
theorem keeps_nested {s : ScopeId} {m : EvalM E α}
    (hm : ∀ v, w.Grows v → s < v.scopes.size → Keeps v Q m)
    (hQ : ∀ v a session depth, Q v a → Q (v.setDepth session depth) a) :
    Keeps w Q (EvalM.nested s m) := by
  intro v hgrows hclosed
  unfold EvalM.nested
  cases hscope : v.scopes[s]? with
  | none => exact ⟨.refl v, hclosed, rfl, nofun⟩
  | some scope =>
    dsimp only
    cases hsession : v.sessions[scope.session]? with
    | none => exact ⟨.refl v, hclosed, rfl, nofun⟩
    | some session =>
      dsimp only
      split
      · have hs := (Array.getElem?_eq_some_iff.mp hscope).1
        have hdeeper : v.Grows (v.setDepth scope.session (session.depth + 1)) :=
          ⟨Nat.le_refl _, Nat.le_refl _⟩
        have hinner := hm v hgrows hs _ hdeeper (hclosed.setDepth _ _)
        exact ⟨⟨hinner.grows.scopes, hinner.grows.ids⟩, hinner.closed.setDepth _ _,
          World.sessions_setDepth_back hsession hinner.sessions,
          fun hok => hQ _ _ _ _ (hinner.result hok)⟩
      · exact ⟨.refl v, hclosed, rfl, nofun⟩

end FlatLisp
