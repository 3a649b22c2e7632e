import FlatLisp.Proofs.Keywords

/-!
# Sessions that have just started

An ordinary session starts with functions from outside of the language, each bound under its names in the
root. No name is given twice, so every name of a special form has its meaning there.
-/

namespace FlatLisp

open Correspondence

variable {E : Type}

/-- Bind new functions, each under its names. -/
def installEach (s : ScopeId) : List (List String × Body E) → EvalM E Unit
  | [] => return ()
  | (names, body) :: entries => do
    installNamed s names body
    installEach s entries

/-- The special forms, each with its names. -/
def formEntries (forms : List Form) : List (List String × Body E) :=
  forms.map fun form => (form.names, .form form)

/-- The builtin operations, each with its name. -/
def builtinEntries (bs : List Builtin) : List (List String × Body E) :=
  bs.map fun b => ([b.name], .builtin b)

section

variable (s : ScopeId)

/-- Functions are bound one list after the other. -/
theorem installEach_append (entries others : List (List String × Body E)) :
    installEach s (entries ++ others) = installEach s entries >>= fun _ => installEach s others := by
  induction entries with
  | nil => rfl
  | cons entry entries ih => simp only [List.cons_append, installEach, ih, bind_assoc]

theorem installForms_eq (forms : List Form) :
    (installForms s forms : EvalM E Unit) = installEach s (formEntries forms) := by
  induction forms with
  | nil => rfl
  | cons form forms ih => simp only [installForms, formEntries, List.map_cons, installEach, ih]

theorem installBuiltins_eq (bs : List Builtin) :
    (installBuiltins s bs : EvalM E Unit) = installEach s (builtinEntries bs) := by
  induction bs with
  | nil => rfl
  | cons b bs ih => simp only [installBuiltins, builtinEntries, List.map_cons, installEach, ih]

/-- Binding names changes nothing but scopes. -/
theorem bindAll_eq (entries : List (String × Value E)) (w : World E) :
    ∃ scopes, bindAll s entries w = (.ok (), { w with scopes := scopes }) := by
  induction entries generalizing w with
  | nil => exact ⟨w.scopes, rfl⟩
  | cons entry entries ih =>
    obtain ⟨scopes, hrun⟩ := ih (w.bind s entry.1 entry.2)
    exact ⟨scopes, hrun⟩

end

/-- New functions are found under their names, if no two of them share one. Other names stand for what
they did before. -/
theorem exists_installEach {s : ScopeId} {w : World E} {scope : Scope E}
    (hscope : w.scopes[s]? = some scope) {entries : List (List String × Body E)}
    (hnames : (entries.flatMap Prod.fst).Nodup) :
    ∃ scopes next scope', installEach s entries w =
        (.ok (), { w with scopes := scopes, nextId := next }) ∧
      scopes[s]? = some scope' ∧ scope'.session = scope.session ∧
      (∀ entry ∈ entries, ∀ name ∈ entry.1, ∃ f : Function E, f.body = entry.2 ∧
        scope'.table.find? name = some (.function f)) ∧
      ∀ name ∉ entries.flatMap Prod.fst, scope'.table.find? name = scope.table.find? name := by
  induction entries generalizing w scope with
  | nil => exact ⟨w.scopes, w.nextId, scope, rfl, hscope, rfl, nofun, fun _ _ => rfl⟩
  | cons entry entries ih =>
    obtain ⟨names, body⟩ := entry
    rw [List.flatMap_cons] at hnames
    obtain ⟨hown, hrest, hdisjoint⟩ := List.nodup_append.mp hnames
    -- One function is bound under the names of the first entry.
    let u : World E := { w with nextId := w.nextId + 1 }
    let bound := names.map fun name =>
      (name, Value.function ⟨w.nextId, some (builtinLabel name), body⟩)
    have hkeys : bound.map Prod.fst = names := by simp [bound, Function.comp_def]
    have hdifferent : (bound.map Prod.fst).Nodup := hkeys.symm ▸ hown
    obtain ⟨u₁, frame, hbind, -, hframe, hsession, hbound, hothers⟩ :=
      exists_bindAll (w := u) hscope hdifferent
    obtain ⟨scopes₁, hscopes⟩ := bindAll_eq s bound u
    cases hbind.symm.trans hscopes
    obtain ⟨scopes, next, scope', hrun, hscope', hsame, hfound, hkept⟩ := ih hframe hrest
    refine ⟨scopes, next, scope', ?_, hscope', hsame.trans hsession, ?_, fun name hname => ?_⟩
    · have hfirst : installNamed s names body w =
          (.ok (), { w with scopes := scopes₁, nextId := w.nextId + 1 }) := hbind
      rw [installEach, run_bind_ok _ hfirst, hrun]
    · intro entry he name hname
      rcases List.mem_cons.mp he with rfl | he
      · have hlater : name ∉ entries.flatMap Prod.fst := fun h => hdisjoint name hname name h rfl
        refine ⟨⟨w.nextId, some (builtinLabel name), body⟩, rfl, ?_⟩
        rw [hkept name hlater]
        exact hbound _ (List.mem_map_of_mem hname)
      · exact hfound entry he name hname
    · rw [List.flatMap_cons, List.mem_append, not_or] at hname
      rw [hkept name hname.2, hothers name (hkeys.symm ▸ hname.1)]

/-- The special forms and the builtin operations share no name. -/
theorem nodup_names :
    (((formEntries Form.all : List (List String × Body E)) ++ builtinEntries Builtin.all).flatMap
      Prod.fst).Nodup := by
  have hnames : ((formEntries Form.all : List (List String × Body E)) ++
      builtinEntries Builtin.all).flatMap Prod.fst =
        Form.all.flatMap Form.names ++ Builtin.all.map Builtin.name := rfl
  rw [hnames]
  decide

/-- Every special form is among those that are bound. -/
theorem Form.mem_all (form : Form) : form ∈ Form.all := by
  cases form <;> decide

/-- No name of a special form is a literal. -/
theorem literal?_of_mem_names {form : Form} {name : String} (h : name ∈ form.names) :
    (Value.literal? name : Option (Value E)) = none := by
  have hnames : ∀ name ∈ form.names,
      name.toList.any Char.isDigit = false ∧ name ≠ "true" ∧ name ≠ "false" := by
    cases form <;> decide
  obtain ⟨hdigit, htrue, hfalse⟩ := hnames name h
  exact literal?_eq_none hdigit htrue hfalse

/-- What stands in the root of an ordinary session that has just started. -/
theorem exists_openRoot (host : Host E) (loader : Loader) (comments : Bool) (maxDepth : Nat)
    (w : World E) :
    ∃ w', openRoot host loader comments maxDepth w = (.ok w.scopes.size, w') ∧
      w'.sessionOf? w.scopes.size = some ⟨host, loader, comments, maxDepth, 0, false⟩ ∧
      w'.printed = w.printed ∧ w'.requested = w.requested ∧
      ∀ form : Form, ∀ name ∈ form.names, w'.Means w.scopes.size name form := by
  let root : ScopeId := w.scopes.size
  let session : Session E := ⟨host, loader, comments, maxDepth, 0, false⟩
  let w₁ : World E := (openBare host loader comments maxDepth w).2
  have hopen : openBare host loader comments maxDepth w = (.ok root, w₁) := rfl
  have hbare : w₁.scopes[root]? = some ⟨[], none, w.sessions.size⟩ := Array.getElem?_push_size
  obtain ⟨scopes, next, scope, hinstall, hscope, hown, hfound, -⟩ :=
    exists_installEach hbare nodup_names
  refine ⟨{ w₁ with scopes := scopes, nextId := next }, ?_, ?_, rfl, rfl, fun form name hname => ?_⟩
  · rw [installEach_append, ← installForms_eq, ← installBuiltins_eq] at hinstall
    obtain ⟨u, w₂, hforms, hbuiltins⟩ := EvalM.exists_of_bind hinstall
    rw [openRoot, run_bind_ok _ hopen, run_bind_ok _ hforms, run_bind_ok _ hbuiltins]
    rfl
  · refine World.sessionOf?_eq_some hscope ?_
    rw [hown]
    exact Array.getElem?_push_size
  · have hentry : (form.names, .form form) ∈
        (formEntries Form.all : List (List String × Body E)) ++ builtinEntries Builtin.all :=
      List.mem_append_left _ (List.mem_map_of_mem form.mem_all)
    obtain ⟨f, hbody, hf⟩ := hfound _ hentry name hname
    refine ⟨literal?_of_mem_names hname, f, hbody, ?_⟩
    have hfind := World.find?_of_local (w := { w₁ with scopes := scopes, nextId := next }) hscope hf
    rw [EvalM.lookup, hfind]

end FlatLisp
