import FlatLisp.Proofs.Naming

/-!
# Lists that start with a keyword

A list whose first word stands for a special form is evaluated by calling the form with the other parts
of the list as they are. This takes two levels of nesting, one for the list and one for its first word,
and the form is called on the first of them.
-/

namespace FlatLisp

open Correspondence

variable {E : Type}

namespace World.HasRoom

variable {w : World E} {s : ScopeId} {i : Nat} {session : Session E} {keyword : String} {form : Form}

/-- Where two evaluations can be nested, there is room for the second one below the first. -/
theorem deeper (h : w.HasRoom s i session) (hdeep : session.depth + 1 < session.maxDepth) :
    (w.setDepth i (session.depth + 1)).HasRoom s i { session with depth := session.depth + 1 } :=
  ⟨h.houses, h.own_deeper, hdeep⟩

/-- A level down and up again leaves the world as it was. -/
theorem setDepth_back (h : w.HasRoom s i session) :
    (w.setDepth i (session.depth + 1)).setDepth i session.depth = w := by
  rw [setDepth_setDepth, setDepth_self h.own]

/-- One level down, there is one evaluation less to come. -/
theorem budget_deeper (h : w.HasRoom s i session) :
    (w.setDepth i (session.depth + 1)).budget + 1 = w.budget :=
  budget_setDepth h.own h.free

variable [Embedding E]

/-- A combination whose first word stands for a special form calls the form. -/
theorem evaluateCombination_keyword (h : w.HasRoom s i session) (hmeans : w.Means s keyword form)
    {operands : List Program}
    (hlazy : (form.typed : Typed E).signature.isLazy = true ∨ operands = []) :
    evaluateCombination (evaluateWithin w.budget) s ([.word keyword] :: operands) w =
      Function.call ⟨0, none, .form form⟩ s (operands.map .program) w := by
  obtain ⟨hkeyword, f, hbody, hlookup⟩ := hmeans
  have hword : evaluateWithin w.budget s [.word keyword] w = (.ok (.function f), w) := by
    have hevaluate := h.evaluate_word keyword
    rw [hkeyword, hlookup] at hevaluate
    exact hevaluate
  obtain ⟨id, label, body⟩ := f
  cases hbody
  rw [evaluateCombination, run_bind_ok _ hword]
  change (do
    let arguments ←
      if (form.typed : Typed E).signature.isLazy then pure (operands.map Operand.program)
      else evaluateAll (evaluateWithin w.budget) s operands
    Function.callWithin (evaluateWithin w.budget) s (Embedding.directCalls E + 1) ⟨id, label, .form form⟩
      arguments : EvalM E (Value E)) w = _
  rcases hlazy with hlazy | rfl
  · rw [if_pos hlazy]
    rfl
  · split <;> rfl

/-- A list whose first word stands for a special form is a call of the form, one level down. -/
theorem evaluate_keyword (h : w.HasRoom s i session) (hdeep : session.depth + 1 < session.maxDepth)
    (hmeans : w.Means s keyword form) {parts : Forest}
    (hlazy : (form.typed : Typed E).signature.isLazy = true ∨ parts = [])
    {result : Except Error (Value E)} {u : World E}
    (hcall : Function.call ⟨0, none, .form form⟩ s ((parts.map Tree.tokens).map .program)
      (w.setDepth i (session.depth + 1)) = (result, u)) :
    evaluate s (Tree.tokens (.list (.leaf keyword :: parts))) w =
      (result, u.setDepth i session.depth) := by
  have hoperands : (form.typed : Typed E).signature.isLazy = true ∨ parts.map Tree.tokens = [] :=
    hlazy.imp_right fun hparts => by rw [hparts, List.map_nil]
  have hcombination :=
    (h.deeper hdeep).evaluateCombination_keyword (hmeans.setDepth i _) hoperands
  rw [hcall] at hcombination
  rw [h.evaluate_eq h.budget_deeper.symm, step_list, hcombination]

/-- Where a second evaluation cannot be nested, a list that starts with a word exhausts the limit. -/
theorem evaluate_list_of_full (h : w.HasRoom s i session)
    (hdeep : ¬session.depth + 1 < session.maxDepth) (keyword : String) (parts : Forest) :
    evaluate s (Tree.tokens (.list (.leaf keyword :: parts))) w =
      (.error (.stackExhausted session.maxDepth), w) := by
  obtain ⟨scope, hscope, rfl⟩ := h.houses
  have hsession : (w.setDepth scope.session (session.depth + 1)).sessionOf? s =
      some { session with depth := session.depth + 1 } :=
    sessionOf?_eq_some hscope h.own_deeper
  have hword : evaluateWithin (w.setDepth scope.session (session.depth + 1)).budget s
      [.word keyword] (w.setDepth scope.session (session.depth + 1)) =
        (.error (.stackExhausted session.maxDepth), w.setDepth scope.session (session.depth + 1)) :=
    evaluate_of_full hsession hdeep [.word keyword]
  rw [h.evaluate_eq h.budget_deeper.symm, step_list, evaluateCombination, run_bind_error _ hword,
    h.setDepth_back]

end World.HasRoom

end FlatLisp
