import FlatLisp.Proofs.DepthLimit
import FlatLisp.Proofs.Forest
import FlatLisp.Proofs.Frame

/-!
# Sequences of forms

Evaluating two programs as one is evaluating them in turn. As one program they make a sequence, whose
forms are evaluated one level deeper than the sequence itself. On its own a program of several forms
is a sequence too, with its forms at that same level, but a program of one form is evaluated a level
higher. So the two ways differ only in how deep some forms are nested, and that shows only if the
depth limit is exhausted.
-/

namespace FlatLisp

open Correspondence

variable {E : Type}

/-! ## Forms in turn -/

section

variable (eval : ScopeId → Program → EvalM E (Value E)) (s : ScopeId)

/-- The forms of two lists are evaluated one list after the other. -/
theorem evaluateSequence_append (v : Value E) (ps qs : List Program) :
    evaluateSequence eval s v (ps ++ qs) =
      evaluateSequence eval s v ps >>= fun u => evaluateSequence eval s u qs := by
  induction ps generalizing v with
  | nil => rfl
  | cons p ps ih => simp only [List.cons_append, evaluateSequence, ih, bind_assoc]

/-- A single form is evaluated for its value. -/
theorem evaluateSequence_singleton (v : Value E) (p : Program) :
    evaluateSequence eval s v [p] = eval s p :=
  bind_pure _

/-- Two trees or more are evaluated in turn. -/
theorem step_tokens [Embedding E] {f : Forest} (hf : 2 ≤ f.length) :
    step eval s f.tokens = evaluateSequence eval s .empty (f.map Tree.tokens) := by
  have hcombination : Program.isCombination f.tokens = false := by
    rw [Bool.eq_false_iff, Ne, Program.isCombination_tokens_iff]
    rintro ⟨children, rfl⟩
    simp at hf
  have hcheck : Program.validate f.tokens = .ok () :=
    Program.validate_eq_ok_iff.mpr (Program.isValid_tokens f)
  have hlength : 2 ≤ f.tokens.length := Nat.le_trans hf f.length_le_tokens
  rw [← Program.split_tokens hcombination]
  match htokens : f.tokens with
  | [] => simp [htokens] at hlength
  | [t] => simp [htokens] at hlength
  | a :: b :: rest =>
    rw [htokens] at hcombination hcheck
    simp only [step, hcombination, hcheck]
    rfl

end

/-! ## The session of a scope -/

/-- Whether a scope exists and belongs to session `i`. -/
def World.Houses (w : World E) (s : ScopeId) (i : Nat) : Prop :=
  ∃ scope, w.scopes[s]? = some scope ∧ scope.session = i

/-- The contract to leave a scope in its session. -/
def homeContract (s : ScopeId) (i : Nat) : Contract E where
  Admits _ := True
  Knows _ := True
  Uses _ := True
  Holds w := w.Houses s i
  Fails _ w := w.Houses s i

namespace homeContract

variable (s : ScopeId) (i : Nat)

/-- Any program and any object will do. -/
theorem isPermissive : (homeContract (E := E) s i).IsPermissive :=
  ⟨fun _ => trivial, fun _ => trivial⟩

/-- The primitives of evaluation leave scopes in their sessions. -/
theorem isKept : (homeContract (E := E) s i).IsKept where
  knows_plain _ _ := trivial
  knows_snapshot _ _ _ := trivial
  admits_split _ _ := trivial
  admits_substitute _ _ := trivial
  admits_parse _ := trivial
  allows_entry _ _ _ := (isPermissive s i).isExact.values_iff.mpr rfl
  callable_host _ _ _ := (isPermissive s i).isExact.functions_iff.mpr rfl
  newId hw := hw
  print _ hw := hw
  request _ hw := hw
  bind := by
    intro w t name v _ _ hw
    obtain ⟨scope, hscope, hsession⟩ := hw
    unfold homeContract World.Houses
    dsimp only
    rw [World.getElem?_bind, hscope]
    split
    · exact ⟨_, rfl, hsession⟩
    · exact ⟨scope, rfl, hsession⟩
  child := by
    intro w t parent hw _
    obtain ⟨scope, hscope, hsession⟩ := hw
    exact ⟨trivial, scope, World.getElem?_pushScope_of_some w _ hscope, hsession⟩
  setDepth _ _ hw := hw
  fails _ hw := hw
  fails_setDepth _ _ hw := hw
  fails_malformed _ _ _ hw := hw
  fails_parse hw _ _ _ := hw

end homeContract

/-! ## One level deeper -/

namespace World

variable {w w' : World E} {s : ScopeId} {i : Nat} {session : Session E}

/-- Another depth under the same limit. -/
theorem withDepth_maxDepth (h : w.sessions[i]? = some session) (depth : Nat) :
    w.withDepth i depth session.maxDepth = w.setDepth i depth := by
  have hsessions : (w.withDepth i depth session.maxDepth).sessions = (w.setDepth i depth).sessions := by
    apply Array.ext_getElem?
    intro j
    rw [getElem?_withDepth, getElem?_setDepth]
    split
    · next heq =>
      subst heq
      rw [h]
      rfl
    · rfl
  exact congrArg (fun sessions => { w with sessions := sessions }) hsessions

/-- A scope from which one more evaluation is possible. -/
structure HasRoom (w : World E) (s : ScopeId) (i : Nat) (session : Session E) : Prop where
  houses : w.Houses s i
  own : w.sessions[i]? = some session
  free : session.depth < session.maxDepth

namespace HasRoom

/-- Only sessions count, and that the scope is in its own. -/
theorem of_sessions_eq (h : w.HasRoom s i session) (hsessions : w'.sessions = w.sessions)
    (hhouses : w'.Houses s i) : w'.HasRoom s i session :=
  ⟨hhouses, hsessions ▸ h.own, h.free⟩

/-- The session of the scope, one level deeper. -/
theorem own_deeper (h : w.HasRoom s i session) : (w.setDepth i (session.depth + 1)).sessions[i]? =
    some { session with depth := session.depth + 1 } := by
  rw [getElem?_setDepth, if_pos rfl, h.own, Option.map_some]

/-- The world one level deeper, at the depth that it came from. -/
theorem withDepth_deeper (h : w.HasRoom s i session) :
    (w.setDepth i (session.depth + 1)).withDepth i session.depth session.maxDepth = w := by
  have hdepth := withDepth_maxDepth h.own_deeper session.depth
  rw [hdepth, setDepth_setDepth, setDepth_self h.own]

/-- There is fuel for one more evaluation. -/
theorem exists_fuel (h : w.HasRoom s i session) : ∃ fuel, w.budget = fuel + 1 := by
  have hbudget := budget_setDepth h.own h.free
  exact ⟨_, hbudget.symm⟩

/-- One level deeper, a session is less free. -/
theorem loosens (h : w.HasRoom s i session) {fuel : Nat} (hfuel : w.budget = fuel + 1) :
    Loosens (w.setDepth i (session.depth + 1)) i (session.depth + 1) session.maxDepth session.depth
      session.maxDepth False fuel (fuel + 1) := by
  have hbudget := budget_setDepth h.own h.free
  refine ⟨fun hown => ?_, by omega, False.elim, by omega, ?_⟩
  · rw [h.own_deeper] at hown
    cases hown
    exact ⟨rfl, rfl⟩
  · rw [h.withDepth_deeper]
    omega

/-- Runs that correspond one level deeper and at the depth of the world end in the same way, unless
the limit is exhausted. -/
theorem eq_of_outcomes (h : w.HasRoom s i session) {o o' : Except Error (Value E) × World E}
    (houtcome : (depthCorrespondence (w.setDepth i (session.depth + 1)).sessions i session.maxDepth
      session.depth session.maxDepth False).Outcomes Eq o o')
    (hfree : ∀ limit, o.1 ≠ .error (.stackExhausted limit)) :
    o' = (o.1, o.2.setDepth i session.depth) := by
  have hworld : ∀ {u u' : World E}, u.sessions = (w.setDepth i (session.depth + 1)).sessions ∧
      u' = u.withDepth i session.depth session.maxDepth → u' = u.setDepth i session.depth := by
    rintro u u' ⟨hsessions, rfl⟩
    have hown := h.own_deeper
    rw [← hsessions] at hown
    exact withDepth_maxDepth hown session.depth
  cases houtcome with
  | ok hv hw => rw [hv, hworld hw]
  | failed he =>
    obtain ⟨hw, rfl | hboth⟩ := he
    · rw [hworld hw]
    · exact hboth.1.elim
  | cut _ he => exact absurd (congrArg Except.error he.2.1) (hfree _)

end HasRoom

end World

variable [Embedding E]

/-- Evaluation leaves scopes in their sessions. -/
theorem World.Houses.evaluate (hE : Embedding.ActsThroughCaller E) {w : World E} {s : ScopeId}
    {i : Nat} (hw : w.Houses s i) (t : ScopeId) (p : Program) :
    (evaluate t p w).2.Houses s i := by
  have hkept := homeContract.isKept (E := E) s i
  have hrespected := hE _ (hkept.isExact (homeContract.isPermissive s i) fun _ _ h => h)
  have houtcome := hkept.evaluateWithin hrespected w.budget (s := t) (p := p) hw trivial trivial
  unfold FlatLisp.evaluate
  generalize evaluateWithin w.budget t p w = o at houtcome
  cases houtcome with
  | ok _ hw => exact hw.2
  | failed h => exact h.2.2
  | cut _ h => exact h.elim

/-- Evaluation leaves a scope in its session, and the session as it was. -/
theorem World.sessionOf?_evaluate (hE : Embedding.ActsThroughCaller E) {w : World E} {s : ScopeId}
    {session : Session E} (h : w.sessionOf? s = some session) (t : ScopeId) (p : Program) :
    (FlatLisp.evaluate t p w).2.sessionOf? s = some session := by
  obtain ⟨scope, hscope, hsession⟩ := Option.bind_eq_some_iff.mp h
  have hhouses : w.Houses s scope.session := ⟨scope, hscope, rfl⟩
  obtain ⟨after, hafter, hsame⟩ := hhouses.evaluate hE t p
  rw [World.sessionOf?_eq_some hafter]
  rw [sessions_evaluate hE, hsame, hsession]

namespace World.HasRoom

variable {w : World E} {s : ScopeId} {i : Nat} {session : Session E} {fuel : Nat}

/-- One evaluation from the scope. -/
theorem evaluate_eq (h : w.HasRoom s i session) (hfuel : w.budget = fuel + 1) (p : Program) :
    evaluate s p w =
      ((step (evaluateWithin fuel) s p (w.setDepth i (session.depth + 1))).1,
        (step (evaluateWithin fuel) s p (w.setDepth i (session.depth + 1))).2.setDepth i
          session.depth) := by
  obtain ⟨scope, hscope, rfl⟩ := h.houses
  rw [evaluate, hfuel]
  exact EvalM.nested_of_free _ hscope h.own h.free

/-- The empty program does nothing. -/
theorem evaluate_nil (h : w.HasRoom s i session) : evaluate s [] w = (.ok .empty, w) := by
  obtain ⟨fuel, hfuel⟩ := h.exists_fuel
  rw [h.evaluate_eq hfuel]
  change (Except.ok Value.empty, (w.setDepth i (session.depth + 1)).setDepth i session.depth) = _
  rw [World.setDepth_setDepth, World.setDepth_self h.own]

/-- Evaluating forms in turn, one level deeper, leaves sessions as they are there. -/
theorem sessions_evaluateSequence (hE : Embedding.ActsThroughCaller E) (h : w.HasRoom s i session)
    (hfuel : w.budget = fuel + 1) (v : Value E) (ps : List Program) :
    (evaluateSequence (evaluateWithin fuel) s v ps (w.setDepth i (session.depth + 1))).2.sessions =
      (w.setDepth i (session.depth + 1)).sessions := by
  have hruns := Simulation.runs_evaluateSequence
    (depthCorrespondence.evaluators hE (h.loosens hfuel)) (Eq.refl s)
    ((depthCorrespondence.isExact ..).values_iff.mpr (Eq.refl v)) (fun q (_ : q ∈ ps) => trivial)
  have houtcome := hruns (w.setDepth i (session.depth + 1)) _ ⟨rfl, rfl⟩
  generalize evaluateSequence (evaluateWithin fuel) s v ps (w.setDepth i (session.depth + 1)) = o,
    evaluateSequence (evaluateWithin (fuel + 1)) s v ps _ = o' at houtcome
  cases houtcome with
  | ok _ hw => exact hw.1
  | failed he => exact he.1.1
  | cut _ he => exact he.2.2

/-- When forms have been evaluated in turn, there is room for more of them as before. -/
theorem after_evaluateSequence (hE : Embedding.ActsThroughCaller E) (h : w.HasRoom s i session)
    (hfuel : w.budget = fuel + 1) {v : Value E} {ps : List Program}
    {result : Except Error (Value E)} {u : World E}
    (hrun : evaluateSequence (evaluateWithin fuel) s v ps (w.setDepth i (session.depth + 1)) =
      (result, u))
    (hhouses : (u.setDepth i session.depth).Houses s i) :
    (u.setDepth i session.depth).HasRoom s i session ∧
      (u.setDepth i session.depth).budget = fuel + 1 ∧
      (u.setDepth i session.depth).setDepth i (session.depth + 1) = u := by
  have hsessions := h.sessions_evaluateSequence hE hfuel v ps
  rw [hrun] at hsessions
  have hback : (u.setDepth i session.depth).sessions = w.sessions :=
    World.sessions_setDepth_back h.own hsessions
  have hown := h.own_deeper
  rw [← hsessions] at hown
  refine ⟨h.of_sessions_eq hback hhouses, ?_, ?_⟩
  · rw [World.budget, hback, ← World.budget, hfuel]
  · rw [World.setDepth_setDepth]
    exact World.setDepth_self hown

/-- Evaluating the trees of a forest in turn, one level deeper, is evaluating their tokens as a
program, unless a limit is exhausted. -/
theorem evaluate_tokens (hE : Embedding.ActsThroughCaller E) (h : w.HasRoom s i session)
    (hfuel : w.budget = fuel + 1) {f : Forest} (hf : f ≠ []) {v : Value E}
    {o : Except Error (Value E) × World E}
    (ho : evaluateSequence (evaluateWithin fuel) s v (f.map Tree.tokens)
      (w.setDepth i (session.depth + 1)) = o)
    (hfree : ∀ limit, o.1 ≠ .error (.stackExhausted limit)) :
    evaluate s f.tokens w = (o.1, o.2.setDepth i session.depth) := by
  subst ho
  match f with
  | [tree] =>
    -- A single tree is evaluated at the depth of the world, so limits count.
    have hruns := (depthCorrespondence.evaluators hE (h.loosens hfuel) (Eq.refl s)
      (p := tree.tokens) trivial).mono fun _ _ hv => (depthCorrespondence.isExact ..).values_iff.mp hv
    have houtcome := hruns (w.setDepth i (session.depth + 1)) w ⟨rfl, h.withDepth_deeper.symm⟩
    have htokens : Forest.tokens [tree] = tree.tokens := List.append_nil _
    rw [List.map_singleton, evaluateSequence_singleton] at hfree ⊢
    rw [htokens, evaluate, hfuel]
    exact h.eq_of_outcomes houtcome hfree
  | first :: second :: f =>
    rw [h.evaluate_eq hfuel, step_tokens _ _ (by simp)]
    rfl

/-- Two forests are evaluated as one program, if at all, one after the other. -/
theorem evaluate_append (hE : Embedding.ActsThroughCaller E) (h : w.HasRoom s i session)
    {f g : Forest} (hf : f ≠ []) (hg : g ≠ [])
    (hfree : ∀ limit, (evaluate s (f.tokens ++ g.tokens) w).1 ≠ .error (.stackExhausted limit)) :
    evaluate s (f.tokens ++ g.tokens) w = (evaluate s f.tokens >>= fun _ => evaluate s g.tokens) w := by
  obtain ⟨fuel, hfuel⟩ := h.exists_fuel
  have hlength : 2 ≤ (f ++ g).length := by
    have hf' := List.length_pos_iff.mpr hf
    have hg' := List.length_pos_iff.mpr hg
    rw [List.length_append]
    omega
  rw [← Forest.tokens_append] at hfree ⊢
  rw [h.evaluate_eq hfuel, step_tokens _ _ hlength, List.map_append, evaluateSequence_append]
    at hfree ⊢
  cases hfirst : evaluateSequence (evaluateWithin fuel) s .empty (f.map Tree.tokens)
      (w.setDepth i (session.depth + 1)) with
  | mk result u =>
    cases result with
    | error e =>
      rw [run_bind_error _ hfirst] at hfree ⊢
      have hpart := h.evaluate_tokens hE hfuel hf hfirst hfree
      rw [run_bind_error _ hpart]
    | ok v =>
      rw [run_bind_ok _ hfirst] at hfree ⊢
      have hpart := h.evaluate_tokens hE hfuel hf hfirst nofun
      have hhouses := h.houses.evaluate hE s f.tokens
      rw [hpart] at hhouses
      obtain ⟨hroom, hbudget, hdeeper⟩ := h.after_evaluateSequence hE hfuel hfirst hhouses
      have hsecond := hroom.evaluate_tokens hE hbudget hg (v := v) rfl
      rw [hdeeper] at hsecond
      rw [run_bind_ok _ hpart]
      exact (hsecond hfree).symm

end World.HasRoom

/-- From a scope that is lost nothing can be evaluated. -/
theorem evaluate_of_lost {w : World E} {s : ScopeId} (h : w.sessionOf? s = none) (p : Program) :
    evaluate s p w = (.error (.domain .lostScope), w) := by
  unfold evaluate
  cases w.budget <;> exact EvalM.nested_of_lost _ h

/-- In a session that allows no evaluation, evaluating exhausts the limit. -/
theorem evaluate_of_full {w : World E} {s : ScopeId} {session : Session E}
    (h : w.sessionOf? s = some session) (hdepth : ¬session.depth < session.maxDepth) (p : Program) :
    evaluate s p w = (.error (.stackExhausted session.maxDepth), w) := by
  unfold evaluate
  cases w.budget <;> exact EvalM.nested_of_full _ h hdepth

/-- Evaluating two programs as one, the latter not empty, is evaluating them in turn, unless a limit is
exhausted. -/
theorem evaluate_append_eq (hE : Embedding.ActsThroughCaller E) (w : World E) (s : ScopeId)
    {p q : Program} (hp : p.isValid = true) (hq : q.isValid = true) (hne : q ≠ [])
    (hfree : ∀ limit, (evaluate s (p ++ q) w).1 ≠ .error (.stackExhausted limit)) :
    evaluate s (p ++ q) w = (evaluate s p >>= fun _ => evaluate s q) w := by
  cases hsession : w.sessionOf? s with
  | none =>
    rw [evaluate_of_lost hsession, run_bind_error _ (evaluate_of_lost hsession p)]
  | some session =>
    obtain ⟨scope, hscope, hown⟩ := Option.bind_eq_some_iff.mp hsession
    by_cases hdepth : session.depth < session.maxDepth
    · have hroom : w.HasRoom s scope.session session := ⟨⟨scope, hscope, rfl⟩, hown, hdepth⟩
      obtain ⟨f, rfl⟩ : ∃ f : Forest, f.tokens = p := ⟨p.forest, Program.tokens_forest hp⟩
      obtain ⟨g, rfl⟩ : ∃ g : Forest, g.tokens = q := ⟨q.forest, Program.tokens_forest hq⟩
      have hg : g ≠ [] := fun hnil => hne (g.tokens_eq_nil_iff.mpr hnil)
      by_cases hf : f = []
      · subst hf
        rw [Forest.tokens_nil, run_bind_ok _ hroom.evaluate_nil, List.nil_append]
      · exact hroom.evaluate_append hE hf hg hfree
    · have hfull := evaluate_of_full hsession hdepth (p ++ q)
      exact absurd (congrArg Prod.fst hfull) (hfree _)

/-- Take programs `p` and `q` whose parentheses match, the latter not empty, and let functions of the
embedder act through their caller. If evaluating both as one program does not exhaust a limit, it is
evaluating `p` and then `q`. If `p` succeeds, the result is that of `q` in the world that `p` leaves,
and the world is the one that `q` leaves there; however `q` ends, the names that `p` bound stay bound,
and other scopes are as `p` left them. If `p` fails, the result is its failure, and the world is the
one that `p` leaves. -/
theorem evaluate_in_turn (hE : Embedding.ActsThroughCaller E) (w : World E) (s : ScopeId)
    {p q : Program} (hp : p.isValid = true) (hq : q.isValid = true) (hne : q ≠ [])
    (hfree : ∀ limit, (evaluate s (p ++ q) w).1 ≠ .error (.stackExhausted limit)) :
    (∀ v w₁, evaluate s p w = (.ok v, w₁) →
      evaluate s (p ++ q) w = evaluate s q w₁ ∧ w₁.Frame (· ≠ s) (evaluate s (p ++ q) w).2) ∧
    ∀ e w₁, evaluate s p w = (.error e, w₁) → evaluate s (p ++ q) w = (.error e, w₁) := by
  rw [evaluate_append_eq hE w s hp hq hne hfree]
  refine ⟨fun v w₁ hrun => ?_, fun e w₁ hrun => run_bind_error _ hrun⟩
  rw [run_bind_ok _ hrun]
  exact ⟨rfl, frame_evaluate hE.keepsFrames w₁ s q⟩

/-- A session whose root binds nothing but the form `define`. -/
def definingSession : World Empty where
  scopes := #[⟨[("define", .function ⟨0, none, .form .define⟩)], none, 0⟩]
  sessions := #[⟨.empty, .disabled, false, 4, 0, false⟩]
  nextId := 1
  printed := ""
  requested := []

/-- The program `(define name form)`. -/
def definition (name form : String) : Program :=
  [.left, .word "define", .word name, .word form, .right]

/-- If the second of two definitions fails, what the first one bound stays bound. -/
theorem evaluate_in_turn_definingSession :
    let p := definition "a" "true"
    let q := definition "b" "c"
    (evaluate 0 (p ++ q) definingSession).1.map Value.render = .error (.undefinedSymbol "c") ∧
      evaluate 0 (p ++ q) definingSession = evaluate 0 q (evaluate 0 p definingSession).2 ∧
      (evaluate 0 (p ++ q) definingSession).2.hasLocal 0 "a" = true := by
  have hfailed : (evaluate 0 (definition "a" "true" ++ definition "b" "c") definingSession).1.map
      Value.render = .error (.undefinedSymbol "c") := by
    decide +kernel
  have hbound : (evaluate 0 (definition "a" "true") definingSession).2.hasLocal 0 "a" = true := by
    decide +kernel
  have hok : (evaluate 0 (definition "a" "true") definingSession).1.isOk = true := by
    decide +kernel
  have hfree : ∀ limit, (evaluate 0 (definition "a" "true" ++ definition "b" "c")
      definingSession).1 ≠ .error (.stackExhausted limit) := by
    intro limit hlimit
    rw [hlimit] at hfailed
    cases hfailed
  have h := evaluate_in_turn Embedding.isParametric_empty.actsThroughCaller definingSession 0
    (by decide) (by decide) (by decide) hfree
  dsimp only
  generalize evaluate 0 (definition "a" "true") definingSession = first at h hbound hok ⊢
  match first with
  | (.ok v, w₁) =>
    obtain ⟨heq, hframe⟩ := h.1 v w₁ rfl
    exact ⟨hfailed, heq, hframe.hasLocal hbound⟩

end FlatLisp
