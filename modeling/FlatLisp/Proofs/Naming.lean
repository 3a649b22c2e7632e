import FlatLisp.Proofs.Balance
import FlatLisp.Proofs.Sequencing

/-!
# Reading names back

A definition binds a name in the scope that it is evaluated in, and a call of a closure binds the
formals in a new scope. In both cases the name is then found in the scope itself, before any other
binding of it. But a word is looked up only if it is no literal, and `isValidSymbol`, which says what
can be bound, lets more literals pass than it stops: it knows the numerals without a sign, a point or
an exponent, and no other literal. So what is read back is the literal if there is one and else what
was bound.
-/

namespace FlatLisp

open Correspondence

variable {E : Type}

/-- A computation that has a result consists of parts that have results. -/
theorem EvalM.exists_of_bind {α β : Type} {m : EvalM E α} {f : α → EvalM E β} {b : β} {w w' : World E}
    (h : (m >>= f) w = (.ok b, w')) : ∃ a w₁, m w = (.ok a, w₁) ∧ f a w₁ = (.ok b, w') := by
  match hrun : m w with
  | (.ok a, w₁) =>
    rw [run_bind_ok _ hrun] at h
    exact ⟨a, w₁, rfl, h⟩
  | (.error e, w₁) =>
    rw [run_bind_error _ hrun] at h
    cases h

/-! ## What is found -/

/-- What is neither a truth value nor has a digit in it is no literal. -/
theorem literal?_eq_none {name : String} (hdigit : name.toList.any Char.isDigit = false)
    (htrue : name ≠ "true") (hfalse : name ≠ "false") :
    (Value.literal? name : Option (Value E)) = none := by
  simp only [Value.literal?, htrue, hfalse, hdigit, ↓reduceIte, Bool.false_eq_true]

namespace World

variable {w : World E} {s : ScopeId} {name : String} {v : Value E}

/-- What a scope binds itself is found first. -/
theorem find?_of_local {scope : Scope E} (hscope : w.scopes[s]? = some scope)
    (hv : scope.table.find? name = some v) : w.find? s name = some v := by
  have hlt := (Array.getElem?_eq_some_iff.mp hscope).1
  obtain ⟨size, hsize⟩ := Nat.exists_eq_add_one_of_ne_zero (Nat.ne_zero_of_lt hlt)
  have hfirst : ∃ tables, w.visible s = scope.table :: tables := by
    cases hparent : scope.parent with
    | none =>
      refine ⟨[], ?_⟩
      simp only [visible, hsize, chain, hscope, hparent]
    | some parent =>
      refine ⟨w.chain size parent, ?_⟩
      simp only [visible, hsize, chain, hscope, hparent]
  obtain ⟨tables, htables⟩ := hfirst
  rw [find?, htables, List.findSome?_cons, hv]

/-- A name that was bound is found. -/
theorem find?_bind_self {scope : Scope E} (hscope : (w.bind s name v).scopes[s]? = some scope) :
    (w.bind s name v).find? s name = some v := by
  refine find?_of_local hscope ?_
  rw [getElem?_bind, if_pos rfl] at hscope
  obtain ⟨before, -, rfl⟩ := Option.map_eq_some_iff.mp hscope
  exact Table.find?_insert_self _ _ _

/-- What is found depends on scopes alone. -/
theorem find?_of_scopes_eq {w' : World E} (h : w'.scopes = w.scopes) (s : ScopeId) (name : String) :
    w'.find? s name = w.find? s name := by
  rw [find?, visible_of_scopes_eq h, ← find?]

/-- What a name stands for does not depend on how deep sessions are nested. -/
theorem lookup_setDepth (w : World E) (i depth : Nat) (s : ScopeId) (name : String) :
    EvalM.lookup s name (w.setDepth i depth) =
      ((EvalM.lookup s name w).1, w.setDepth i depth) := by
  have hscopes : (w.setDepth i depth).scopes = w.scopes := rfl
  have hfind := find?_of_scopes_eq hscopes s name
  have hhost : (((w.setDepth i depth).sessionOf? s).bind fun session => session.host.resolve? name) =
      (w.sessionOf? s).bind fun session => session.host.resolve? name := by
    simp only [sessionOf?, hscopes, getElem?_setDepth]
    cases w.scopes[s]? with
    | none => rfl
    | some scope =>
      by_cases hown : i = scope.session
      · cases hsession : w.sessions[scope.session]? <;> simp [hown, hsession]
      · simp [hown]
  simp only [EvalM.lookup, hfind, hhost]
  cases w.find? s name with
  | some v => rfl
  | none => cases (w.sessionOf? s).bind fun session => session.host.resolve? name <;> rfl

/-- Looking up a name changes nothing. -/
theorem lookup_world (w : World E) (s : ScopeId) (name : String) :
    (EvalM.lookup s name w).2 = w := by
  unfold EvalM.lookup
  cases w.find? s name with
  | some v => rfl
  | none => cases (w.sessionOf? s).bind fun session => session.host.resolve? name <;> rfl

/-- The scope of a session that allows an evaluation has room for one. -/
theorem HasRoom.of_sessionOf? {session : Session E} (h : w.sessionOf? s = some session)
    (hdepth : session.depth < session.maxDepth) : ∃ i, w.HasRoom s i session := by
  obtain ⟨scope, hscope, hown⟩ := Option.bind_eq_some_iff.mp h
  exact ⟨scope.session, ⟨scope, hscope, rfl⟩, hown, hdepth⟩

end World

/-- The word stands for the special form, as seen from the scope. -/
def World.Means (w : World E) (s : ScopeId) (keyword : String) (form : Form) : Prop :=
  (Value.literal? keyword : Option (Value E)) = none ∧
    ∃ f : Function E, f.body = .form form ∧ EvalM.lookup s keyword w = (.ok (.function f), w)

/-- What a word stands for does not depend on how deep sessions are nested. -/
theorem World.Means.setDepth {w : World E} {s : ScopeId} {keyword : String} {form : Form}
    (h : w.Means s keyword form) (i depth : Nat) : (w.setDepth i depth).Means s keyword form := by
  obtain ⟨hkeyword, f, hbody, hlookup⟩ := h
  refine ⟨hkeyword, f, hbody, ?_⟩
  rw [World.lookup_setDepth, hlookup]

/-! ## Arguments -/

/-- Names that are bound one after the other are all bound in the end, if they are different. -/
theorem exists_bindAll {w : World E} {s : ScopeId} {scope : Scope E}
    (hscope : w.scopes[s]? = some scope) {entries : List (String × Value E)}
    (hnames : (entries.map Prod.fst).Nodup) :
    ∃ w' scope', bindAll s entries w = (.ok (), w') ∧ w'.sessions = w.sessions ∧
      w'.scopes[s]? = some scope' ∧ scope'.session = scope.session ∧
      (∀ entry ∈ entries, scope'.table.find? entry.1 = some entry.2) ∧
      ∀ name ∉ entries.map Prod.fst, scope'.table.find? name = scope.table.find? name := by
  induction entries generalizing w scope with
  | nil => exact ⟨w, scope, rfl, rfl, hscope, rfl, nofun, fun _ _ => rfl⟩
  | cons entry entries ih =>
    obtain ⟨hnew, hnames⟩ := List.nodup_cons.mp hnames
    have hbound : (w.bind s entry.1 entry.2).scopes[s]? =
        some { scope with table := scope.table.insert entry.1 entry.2 } := by
      rw [World.getElem?_bind, if_pos rfl, hscope]
      rfl
    obtain ⟨w', scope', hrun, hsessions, hscope', hsession, hentries, hothers⟩ := ih hbound hnames
    refine ⟨w', scope', hrun, hsessions, hscope', hsession, fun e he => ?_, fun name hname => ?_⟩
    · rcases List.mem_cons.mp he with rfl | he
      · rw [hothers _ hnew, Table.find?_insert_self]
      · exact hentries e he
    · obtain ⟨hne, hname⟩ := List.ne_and_not_mem_of_not_mem_cons hname
      rw [hothers name hname, Table.find?_insert_of_ne _ _ hne]

/-- Values of any kind pass the signature of a closure as they are. -/
theorem adapt_untyped (values : List (Value E)) :
    (Signature.untyped values.length).adapt (values.map .value) = .ok (values.map .value) := by
  have hadapt : ∀ position, Signature.adaptFrom none position (List.replicate values.length .any)
      (values.map .value) = .ok (values.map .value) := by
    induction values with
    | nil => exact fun _ => rfl
    | cons v values ih =>
      intro position
      have hfirst : ParamSpec.adapt .any (.value v) position = .ok (.value v) := rfl
      rw [List.map_cons, List.length_cons, List.replicate_succ, Signature.adaptFrom, hfirst,
        ih (position + 1)]
      rfl
  simp [Signature.adapt, Signature.arity?, Signature.untyped, Arity.accepts, hadapt]

/-- Values are read as they are. -/
theorem readRest_values (position : Nat) (values : List (Value E)) (w : World E) :
    Args.readRest .value position (values.map .value) w = (.ok values, w) := by
  induction values generalizing position with
  | nil => rfl
  | cons v values ih =>
    have hfirst : ParamType.read .value (.value v) position w = (.ok v, w) := rfl
    rw [List.map_cons, Args.readRest, run_bind_ok _ hfirst, run_bind_ok _ (ih (position + 1))]
    rfl

variable [Embedding E]

/-! ## Single words -/

namespace World.HasRoom

variable {w : World E} {s : ScopeId} {i : Nat} {session : Session E}

/-- A scope from which something was evaluated had room for that. -/
theorem of_evaluate {p : Program} {v : Value E} {w' : World E}
    (h : FlatLisp.evaluate s p w = (.ok v, w')) : ∃ i session, w.HasRoom s i session := by
  cases hsession : w.sessionOf? s with
  | none =>
    rw [evaluate_of_lost hsession] at h
    cases h
  | some session =>
    by_cases hdepth : session.depth < session.maxDepth
    · obtain ⟨i, hroom⟩ := of_sessionOf? hsession hdepth
      exact ⟨i, session, hroom⟩
    · rw [evaluate_of_full hsession hdepth] at h
      cases h

/-- A word is a literal or stands for what it is bound to. -/
theorem evaluate_word (h : w.HasRoom s i session) (word : String) :
    FlatLisp.evaluate s [.word word] w =
      match Value.literal? word with
      | some v => (.ok v, w)
      | none => EvalM.lookup s word w := by
  obtain ⟨fuel, hfuel⟩ := h.exists_fuel
  have hback : (w.setDepth i (session.depth + 1)).setDepth i session.depth = w := by
    rw [World.setDepth_setDepth, World.setDepth_self h.own]
  rw [h.evaluate_eq hfuel]
  simp only [step, evaluateToken]
  cases Value.literal? word with
  | some v => exact Prod.ext rfl hback
  | none =>
    dsimp only
    rw [World.lookup_setDepth, hback]
    exact Prod.ext rfl (World.lookup_world w s word).symm

/-- A name that is found is read back, unless it is a literal. -/
theorem evaluate_found (h : w.HasRoom s i session) {name : String} {v : Value E}
    (hv : w.find? s name = some v) :
    FlatLisp.evaluate s [.word name] w = (.ok ((Value.literal? name).getD v), w) := by
  rw [h.evaluate_word]
  cases Value.literal? name with
  | some literal => rfl
  | none => simp only [EvalM.lookup, hv, Option.getD_none]

end World.HasRoom

/-! ## Special forms -/

/-- Whether a program is a single form: one word or a combination. -/
def Program.IsForm (p : Program) : Prop :=
  p.isAtomic = true ∨ p.isCombination = true

/-- The parentheses of a single form match. -/
theorem Program.IsForm.isValid {p : Program} (h : p.IsForm) : p.isValid = true := by
  rcases h with h | h
  · unfold isAtomic at h
    split at h
    · rfl
    · cases h
  · exact isValid_of_isCombination h

/-- A single form is one tree. -/
theorem Program.IsForm.exists_tree {p : Program} (h : p.IsForm) : ∃ tree : Tree, tree.tokens = p := by
  obtain ⟨f, rfl⟩ : ∃ f : Forest, f.tokens = p := ⟨p.forest, tokens_forest h.isValid⟩
  rcases h with h | h
  · obtain ⟨word, rfl⟩ := isAtomic_tokens_iff.mp h
    exact ⟨.leaf word, rfl⟩
  · obtain ⟨children, rfl⟩ := isCombination_tokens_iff.mp h
    exact ⟨.list children, (List.append_nil _).symm⟩

/-- The tokens of a list of a word and two more trees. -/
theorem tokens_list_pair (keyword : String) (first second : Tree) :
    Tree.tokens (.list [.leaf keyword, first, second]) =
      .left :: .word keyword :: (first.tokens ++ second.tokens ++ [.right]) := by
  simp [Tree.tokens, Forest.tokens]

/-- Evaluating a list that starts with a word is calling what the word stands for. -/
theorem step_list (eval : ScopeId → Program → EvalM E (Value E)) (s : ScopeId) (keyword : String)
    (parts : Forest) : step eval s (Tree.tokens (.list (.leaf keyword :: parts))) =
      evaluateCombination eval s ([.word keyword] :: parts.map Tree.tokens) := by
  let list : Tree := .list (.leaf keyword :: parts)
  have htokens : Forest.tokens [list] = list.tokens := List.append_nil _
  have hcombination : Program.isCombination list.tokens = true := by
    rw [← htokens]
    exact Program.isCombination_tokens_iff.mpr ⟨_, rfl⟩
  have hsplit : Program.split list.tokens = [.word keyword] :: parts.map Tree.tokens := by
    rw [← htokens]
    exact Program.split_tokens_list _
  rw [← hsplit]
  exact if_pos hcombination

/-- A combination that starts with the name of a special form whose operands are not evaluated calls
the form with them. -/
theorem exists_call_of_evaluateCombination {w w' : World E} {s : ScopeId} {keyword : String}
    {form : Form} (hmeans : w.Means s keyword form)
    (hlazy : (form.typed : Typed E).signature.isLazy = true) {operands : List Program} {v : Value E}
    (h : evaluateCombination (evaluateWithin w.budget) s ([.word keyword] :: operands) w =
      (.ok v, w')) :
    ∃ f : Function E, f.body = .form form ∧ f.call s (operands.map .program) w = (.ok v, w') := by
  obtain ⟨hkeyword, f, hbody, hlookup⟩ := hmeans
  -- The operator has a value, so there was room to evaluate it, and that changed nothing.
  obtain ⟨operator, w₁, hoperator, h⟩ := EvalM.exists_of_bind h
  have hword : evaluate s [.word keyword] w = (.ok operator, w₁) := hoperator
  obtain ⟨i, session, hroom⟩ := World.HasRoom.of_evaluate hword
  rw [hroom.evaluate_word, hkeyword] at hword
  cases hlookup.symm.trans hword
  have hsignature : f.signature.isLazy = true := by
    rw [Function.signature, hbody]
    exact hlazy
  obtain ⟨resolved, w₂, hresolved, h⟩ := EvalM.exists_of_bind h
  cases hresolved
  dsimp only at h
  rw [if_pos hsignature] at h
  exact ⟨f, hbody, h⟩

/-- What becomes of a list that starts with the name of a special form whose operands are not
evaluated: the form is called with them, one level deeper. -/
theorem exists_call_of_evaluate {w w' : World E} {s : ScopeId} {keyword : String} {form : Form}
    (hmeans : w.Means s keyword form)
    (hlazy : (form.typed : Typed E).signature.isLazy = true) {parts : Forest} {v : Value E}
    (h : evaluate s (Tree.tokens (.list (.leaf keyword :: parts))) w = (.ok v, w')) :
    ∃ i session, ∃ f : Function E, ∃ u, w.HasRoom s i session ∧ f.body = .form form ∧
      f.call s ((parts.map Tree.tokens).map .program) (w.setDepth i (session.depth + 1)) =
        (.ok v, u) ∧ w' = u.setDepth i session.depth := by
  obtain ⟨i, session, hroom⟩ := World.HasRoom.of_evaluate h
  obtain ⟨fuel, hfuel⟩ := hroom.exists_fuel
  have hbudget : (w.setDepth i (session.depth + 1)).budget = fuel := by
    have hnested := World.budget_setDepth hroom.own hroom.free
    omega
  rw [hroom.evaluate_eq hfuel, step_list, ← hbudget] at h
  obtain ⟨hresult, hworld⟩ := Prod.mk.inj h
  obtain ⟨f, hbody, hcall⟩ := exists_call_of_evaluateCombination (hmeans.setDepth i _) hlazy
    (Prod.ext hresult rfl)
  exact ⟨i, session, f, _, hroom, hbody, hcall, hworld.symm⟩

/-- The last thing that a definition does is to bind the name to its value. -/
theorem exists_bind_of_call_define {f : Function E} (hf : f.body = .form .define) {s : ScopeId}
    {word : String} {form : Program} {v : Value E} {w w' : World E}
    (h : f.call s [.program [.word word], .program form] w = (.ok v, w')) :
    ∃ before, w' = World.bind before s word v := by
  obtain ⟨id, label, body⟩ := f
  cases hf
  let caller : Caller E := ⟨s, evaluateWithin w.budget,
    Function.callWithin (evaluateWithin w.budget) s (Embedding.directCalls E)⟩
  have hcall : (Form.typed .define).run caller ([.word word], form, ()) w = (.ok v, w') := h
  cases hvalid : isValidSymbol word with
  | false =>
    have hname : symbolName? [.word word] = none := if_neg (Bool.eq_false_iff.mp hvalid)
    simp only [Form.typed, hname] at hcall
    cases hcall
  | true =>
    have hname : symbolName? [.word word] = some word := if_pos hvalid
    simp only [Form.typed, hname] at hcall
    obtain ⟨value, before, -, hcall⟩ := EvalM.exists_of_bind hcall
    cases hcall
    exact ⟨before, rfl⟩

/-- A closure is made of formals that were checked. -/
theorem exists_closure_of_call_lambda {f : Function E} (hf : f.body = .form .lambda) {s : ScopeId}
    {parameters body : Program} {v : Value E} {w w' : World E}
    (h : f.call s [.program parameters, .program body] w = (.ok v, w')) :
    ∃ id label formals, parameterList parameters = .ok formals ∧
      v = .function ⟨id, label, .closure formals body s⟩ := by
  obtain ⟨id, label, form⟩ := f
  cases hf
  have hcall : Form.makeFunction "lambda" parameters body (fun formals => .closure formals body s) w =
      (.ok v, w') := h
  obtain ⟨formals, w₁, hformals, hcall⟩ := EvalM.exists_of_bind hcall
  cases hcall
  refine ⟨_, _, formals, ?_, rfl⟩
  cases hlist : parameterList parameters with
  | ok names =>
    rw [hlist] at hformals
    cases hformals
    rfl
  | error fault =>
    rw [hlist] at hformals
    cases hformals

/-- A name that was defined is read back, unless it is a literal. -/
theorem evaluate_word_of_define (hE : Embedding.ActsThroughCaller E) {w w' : World E} {s : ScopeId}
    {keyword word : String} (hmeans : w.Means s keyword .define) {form : Tree} {v : Value E}
    (h : evaluate s (Tree.tokens (.list [.leaf keyword, .leaf word, form])) w = (.ok v, w')) :
    evaluate s [.word word] w' = (.ok ((Value.literal? word).getD v), w') := by
  have hhouses : ∀ {i}, w.Houses s i → w'.Houses s i := by
    intro i hi
    have hafter := hi.evaluate hE s (Tree.tokens (.list [.leaf keyword, .leaf word, form]))
    rwa [h] at hafter
  have hsessions : w'.sessions = w.sessions := by
    have hafter := sessions_evaluate hE w s (Tree.tokens (.list [.leaf keyword, .leaf word, form]))
    rwa [h] at hafter
  obtain ⟨i, session, f, u, hroom, hbody, hcall, hworld⟩ := exists_call_of_evaluate hmeans rfl h
  have hroom' := hroom.of_sessions_eq hsessions (hhouses hroom.houses)
  -- Behind the binding, only the depth of the session is set back.
  obtain ⟨before, rfl⟩ := exists_bind_of_call_define hbody hcall
  have hscopes : w'.scopes = (before.bind s word v).scopes := by
    rw [hworld]
    rfl
  obtain ⟨scope, hscope, -⟩ := hroom'.houses
  refine hroom'.evaluate_found ?_
  rw [World.find?_of_scopes_eq hscopes]
  rw [hscopes] at hscope
  exact World.find?_bind_self hscope

/-! ## Calls of closures -/

/-- No formal occurs twice. -/
theorem nodup_of_collectFormals {names formals : List String} {parts : List Program}
    (h : collectFormals names parts = .ok formals) (hnames : names.Nodup) : formals.Nodup := by
  fun_induction collectFormals names parts with
  | case1 names =>
    cases h
    exact (List.reverse_perm names).nodup_iff.mpr hnames
  | case2 => cases h
  | case3 => cases h
  | case4 names name parts hvalid hnew ih =>
    exact ih h (List.nodup_cons.mpr ⟨by simpa using hnew, hnames⟩)
  | case5 => cases h
  | case6 => cases h

/-- No formal occurs twice in a list of formals. -/
theorem nodup_of_parameterList {parameters : Program} {formals : List String}
    (h : parameterList parameters = .ok formals) : formals.Nodup := by
  unfold parameterList at h
  split at h
  · exact nodup_of_collectFormals h List.nodup_nil
  · cases h

/-- A call of a closure with a value for each formal evaluates the body in a new scope below that of
the closure, after binding the formals there one after the other. -/
theorem call_closure_eq {formals : List String} {u u₁ : World E} {scope : ScopeId}
    {session : Session E} (hsession : EvalM.session scope u = (.ok session, u)) {outer : Scope E}
    (houter : u.scopes[scope]? = some outer) (id : Nat) (label : Option String) (body : Program)
    (s : ScopeId) {values : List (Value E)} (hlength : values.length = formals.length)
    (hbind : bindAll u.scopes.size (formals.zip values)
      (u.pushScope ⟨[], some scope, outer.session⟩).1 = (.ok (), u₁))
    (hsessions : u₁.sessions = u.sessions) :
    Function.call ⟨id, label, .closure formals body scope⟩ s (values.map .value) u =
      evaluate u.scopes.size body u₁ := by
  let u₀ : World E := (u.pushScope ⟨[], some scope, outer.session⟩).1
  have hchild : EvalM.child scope u = (.ok u.scopes.size, u₀) := by
    simp only [EvalM.child, houter]
    rfl
  have hadapt : EvalM.ofExcept ((Signature.untyped formals.length).adapt (values.map .value)) u =
      (.ok (values.map .value), u) := by
    rw [← hlength, adapt_untyped]
    rfl
  have hbudget : u₁.budget = u.budget := by
    rw [World.budget, hsessions]
    rfl
  rw [Function.call, Function.callWithin, Function.apply]
  refine (run_bind_ok _ hadapt).trans ?_
  rw [Body.run, run_bind_ok _ hsession, run_bind_ok _ hchild,
    run_bind_ok _ (readRest_values 1 values u₀), run_bind_ok _ hbind, evaluate, hbudget]

/-- A call of a closure evaluates its body in a new scope of its session, which binds the formals to
the arguments. -/
theorem exists_call_closure {formals : List String} (hformals : formals.Nodup) {u : World E}
    {scope : ScopeId} {session : Session E} (hsession : EvalM.session scope u = (.ok session, u))
    (id : Nat) (label : Option String) (body : Program) (s : ScopeId) {values : List (Value E)}
    (hlength : values.length = formals.length) :
    ∃ inner u₁ frame, Function.call ⟨id, label, .closure formals body scope⟩ s (values.map .value) u =
        evaluate inner body u₁ ∧
      u₁.sessionOf? inner = some session ∧ u₁.scopes[inner]? = some frame ∧
      ∀ entry ∈ formals.zip values, frame.table.find? entry.1 = some entry.2 := by
  have hlive : u.sessionOf? scope = some session := by
    rcases EvalM.session_cases scope u with ⟨found, hfound, hrun⟩ | hlost
    · cases hsession.symm.trans hrun
      exact hfound
    · cases hsession.symm.trans hlost
  obtain ⟨outer, houter, hown⟩ := Option.bind_eq_some_iff.mp hlive
  let inner : ScopeId := u.scopes.size
  let u₀ : World E := (u.pushScope ⟨[], some scope, outer.session⟩).1
  have hempty : u₀.scopes[inner]? = some ⟨[], some scope, outer.session⟩ := Array.getElem?_push_size
  have hnames : ((formals.zip values).map Prod.fst).Nodup := by
    rw [List.map_fst_zip (Nat.le_of_eq hlength.symm)]
    exact hformals
  obtain ⟨u₁, frame, hbind, hsessions, hframe, hsame, hentries, -⟩ := exists_bindAll hempty hnames
  refine ⟨inner, u₁, frame, ?_, ?_, hframe, hentries⟩
  · exact call_closure_eq hsession houter id label body s hlength hbind hsessions
  · refine World.sessionOf?_eq_some hframe ?_
    rw [hsessions, hsame]
    exact hown

/-! ## Names and literals -/

/-- A program whose parentheses do not match has no value. -/
theorem isValid_of_evaluate {s : ScopeId} {p : Program} {v : Value E} {w w' : World E}
    (h : evaluate s p w = (.ok v, w')) : p.isValid = true := by
  cases hvalid : p.isValid with
  | true => rfl
  | false =>
    obtain ⟨report, hrefused⟩ := evaluate_of_not_isValid (E := E) hvalid
    rw [hrefused] at h
    split at h
    · cases h
    · split at h <;> cases h

/-- Between words and forms in parentheses there is no single parenthesis. -/
theorem exists_word_of_isValid {keyword : String} {t : Token} {form : Program}
    (hform : form.isValid = true)
    (h : Program.isValid (.left :: .word keyword :: t :: (form ++ [.right])) = true) :
    ∃ word, t = .word word := by
  rw [Program.isValid_iff] at h
  cases t with
  | word word => exact ⟨word, rfl⟩
  | left =>
    simp [Program.openAfter, Program.openAfter_append, Program.openAfter_of_isValid hform] at h
  | right =>
    simp [Program.openAfter, Program.openAfter_append, Program.openAfter_of_isValid hform] at h

/-- What becomes of names that are bound. If a definition in a scope has a value, the name has this
value in the scope right afterwards, unless the name is a literal: then it has the value of the
literal, whatever it was bound to. What `lambda` makes is a closure. When a call of it starts to
evaluate the body, each formal has the value of its argument as long as the scopes are as they are
then and one more evaluation is possible, again unless the formal is a literal. Names without digits
are no literals, but for the truth values. -/
theorem names_read_back (hE : Embedding.ActsThroughCaller E) (s : ScopeId) :
    (∀ (w w' : World E) (keyword : String) (t : Token) (form : Program) (v : Value E),
      w.Means s keyword .define → form.IsForm →
      evaluate s (.left :: .word keyword :: t :: (form ++ [.right])) w = (.ok v, w') →
      evaluate s [t] w' = (.ok ((Value.literal? t.text).getD v), w')) ∧
    (∀ (w w' : World E) (keyword : String) (parameters body : Program) (v : Value E),
      w.Means s keyword .lambda → parameters.IsForm → body.IsForm →
      evaluate s (.left :: .word keyword :: (parameters ++ body ++ [.right])) w = (.ok v, w') →
      ∃ id label formals, v = .function ⟨id, label, .closure formals body s⟩ ∧
        parameterList parameters = .ok formals ∧
        ∀ (u : World E) (session : Session E) (caller : ScopeId) (values : List (Value E)),
          EvalM.session s u = (.ok session, u) → values.length = formals.length →
          ∃ inner u₁, Function.call ⟨id, label, .closure formals body s⟩ caller
              (values.map .value) u = evaluate inner body u₁ ∧
            u₁.sessionOf? inner = some session ∧
            ∀ (i : Nat) (name : String) (argument : Value E) (now : World E) (own : Session E),
              formals[i]? = some name → values[i]? = some argument → now.scopes = u₁.scopes →
              now.sessionOf? inner = some own → own.depth < own.maxDepth →
              evaluate inner [.word name] now = (.ok ((Value.literal? name).getD argument), now)) ∧
    ∀ name : String, name.toList.any Char.isDigit = false → name ≠ "true" → name ≠ "false" →
      (Value.literal? name : Option (Value E)) = none := by
  refine ⟨?_, ?_, fun _ => literal?_eq_none⟩
  · intro w w' keyword t form v hmeans hform h
    obtain ⟨word, rfl⟩ := exists_word_of_isValid hform.isValid (isValid_of_evaluate h)
    obtain ⟨tree, rfl⟩ := hform.exists_tree
    have hlist := tokens_list_pair keyword (.leaf word) tree
    exact evaluate_word_of_define hE hmeans (hlist ▸ h)
  · intro w w' keyword parameters body v hmeans hparameters hform h
    obtain ⟨list, rfl⟩ := hparameters.exists_tree
    obtain ⟨tree, rfl⟩ := hform.exists_tree
    rw [← tokens_list_pair] at h
    obtain ⟨i, session, f, u, -, hbody, hcall, -⟩ := exists_call_of_evaluate hmeans rfl h
    obtain ⟨id, label, formals, hformals, rfl⟩ := exists_closure_of_call_lambda hbody hcall
    refine ⟨id, label, formals, rfl, hformals, fun u session caller values hsession hlength => ?_⟩
    obtain ⟨inner, u₁, frame, hrun, hinner, hframe, hentries⟩ := exists_call_closure
      (nodup_of_parameterList hformals) hsession id label tree.tokens caller hlength
    refine ⟨inner, u₁, hrun, hinner, ?_⟩
    intro i name argument now own hname hargument hscopes hown hdepth
    obtain ⟨j, hroom⟩ := World.HasRoom.of_sessionOf? hown hdepth
    have hentry : (name, argument) ∈ formals.zip values :=
      List.mem_of_getElem? (List.getElem?_zip_eq_some.mpr ⟨hname, hargument⟩)
    refine hroom.evaluate_found (World.find?_of_local ?_ (hentries _ hentry))
    rw [hscopes, hframe]

/-- A session whose root binds nothing but the forms `define` and `lambda`. -/
def bindingSession : World Empty where
  scopes := #[⟨[("define", .function ⟨0, none, .form .define⟩),
    ("lambda", .function ⟨1, none, .form .lambda⟩)], none, 0⟩]
  sessions := #[⟨.empty, .disabled, false, 4, 0, false⟩]
  nextId := 2
  printed := ""
  requested := []

/-- In such a session `x` is 7 after `(define x 7)`, and `(lambda (x y) y)` gives back its second
argument. -/
theorem names_read_back_bindingSession :
    (∃ w', evaluate 0 (definition "x" "7") bindingSession = (.ok (.int 7), w') ∧
      evaluate 0 [.word "x"] w' = (.ok (.int 7), w')) ∧
    ∃ f w', evaluate 0 [.left, .word "lambda", .left, .word "x", .word "y", .right, .word "y", .right]
        bindingSession = (.ok (.function f), w') ∧
      (f.call 0 [.value (.int 3), .value (.int 4)] bindingSession).1 = .ok (.int 4) := by
  obtain ⟨hdefine, hlambda, -⟩ :=
    names_read_back Embedding.isParametric_empty.actsThroughCaller 0
  constructor
  · exact ⟨_, rfl, hdefine bindingSession _ "define" (.word "x") [.word "7"] (.int 7)
      ⟨rfl, _, rfl, rfl⟩ (.inl rfl) rfl⟩
  · obtain ⟨id, label, formals, hclosure, hformals, hcall⟩ := hlambda bindingSession _ "lambda"
      [.left, .word "x", .word "y", .right] [.word "y"] _ ⟨rfl, _, rfl, rfl⟩ (.inr rfl) (.inl rfl) rfl
    cases hformals
    obtain ⟨inner, u₁, hrun, hinner, hread⟩ :=
      hcall bindingSession _ 0 [.int 3, .int 4] rfl rfl
    have hsecond := hread 1 "y" (.int 4) u₁ _ rfl rfl rfl hinner (by decide)
    cases hclosure
    exact ⟨_, _, rfl, congrArg Prod.fst (hrun.trans hsecond)⟩

/-- The name `-5` can be bound to 7, but is -5 right afterwards; a closure that has it for its only
formal gives -5 for any argument. -/
theorem names_read_back_numeral :
    isValidSymbol "-5" = true ∧
      (∃ w', evaluate 0 (definition "-5" "7") definingSession = (.ok (.int 7), w') ∧
        evaluate 0 [.word "-5"] w' = (.ok (.int (-5)), w')) ∧
      parameterList [.left, .word "-5", .right] = .ok ["-5"] ∧
      (Function.call ⟨0, none, .closure ["-5"] [.word "-5"] 0⟩ 0 [.value (.int 7)]
        definingSession).1 = .ok (.int (-5)) ∧
      (Value.int (-5) : Value Empty) ≠ .int 7 :=
  ⟨by decide, ⟨_, rfl, rfl⟩, rfl, rfl, fun h => absurd (Value.int.inj h) (by decide)⟩

end FlatLisp
