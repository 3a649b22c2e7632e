import FlatLisp.Proofs.Rereading.Sample

/-!
# Sessions whose functions can be read again

Sessions that are driven by texts keep what was written, so whatever functions come up in them can be
made again from their texts. To say this of every function that comes up, and not only of those that are
still there in the end, evaluation is compared with an evaluation that takes a second look at every
value that it comes to.
-/

namespace FlatLisp

variable {E : Type}

/-! ## Evaluation that is watched -/

/-- Evaluation that shows every value that it comes to, at any level of nesting, to `watch`, together
with the scope that it was evaluated in. -/
def evaluateWatched [Embedding E] (watch : ScopeId → Value E → EvalM E (Value E)) :
    (fuel : Nat) → ScopeId → Program → EvalM E (Value E)
  | 0, s, _ => EvalM.nested s (throw (.stackExhausted 0))
  | fuel + 1, s, p => EvalM.nested s (step (evaluateWatched watch fuel) s p >>= watch s)

/-- Parse text as the session of a scope does, and evaluate it under watch. -/
def interpretWatched [Embedding E] (watch : ScopeId → Value E → EvalM E (Value E)) (s : ScopeId)
    (text : String) : EvalM E (Value E) := do
  let session ← EvalM.session s
  let p ← EvalM.ofExcept ((Program.parse session.comments text).mapError .malformedProgram)
  fun w => evaluateWatched watch w.budget s p w

/-- If a function was made in the language, then the session allows two evaluations to be nested, as
making a function takes, and reads the text of the function as a program that makes the function once
more. -/
def Session.CanRestore [Embedding E] (session : Session E) (f : Function E) : Prop :=
  f.body.IsDefined → 2 ≤ session.maxDepth ∧ f.Rereads session.comments

/-- Values that the session of their scope can restore are let pass. -/
def LetsPass [Embedding E] (watch : ScopeId → Value E → EvalM E (Value E)) : Prop :=
  ∀ (s : ScopeId) (a : Value E) (u : World E) (session : Session E),
    u.sessionOf? s = some session → a.All session.CanRestore → watch s a u = (.ok a, u)

section

variable [Embedding E] {w : World E} {s : ScopeId} {i : Nat}
  {watch : ScopeId → Value E → EvalM E (Value E)}

/-- What a session can have made it can restore. -/
theorem Value.IsWritten.canRestore {session : Session E} {a : Value E} (h : a.IsWritten w i)
    (hsession : w.sessions[i]? = some session) : a.All session.CanRestore :=
  h.mono fun _ hf hdefined =>
    ⟨hf.nested session hsession hdefined, (hf.source session hsession).rereads hdefined⟩

/-- Evaluation keeps what was written and comes to no value that a second look would not let pass. -/
theorem upholdEvery_evaluateWatched (hE : Embedding.PassesOn E) (hwatch : LetsPass watch)
    (i fuel : Nat) :
    UpholdEvery i (evaluateWithin fuel : ScopeId → Program → EvalM E (Value E))
      (evaluateWatched watch fuel) := by
  induction fuel with
  | zero => exact fun w s p hs _ => upholds_nested hs fun _ _ => upholds_throw _
  | succ fuel ih =>
    intro w s p hs hp
    refine upholds_nested hs fun depth hdeep => ?_
    have hsame := (World.SameRules.setDepth w i depth).continues
    refine (upholds_step hE ih (hsame.houses hs) hdeep (hsame.canRead hp)).watched ?_
    intro v a hv ha
    obtain ⟨session, hsession, -⟩ := hdeep
    rw [← hv.sessions] at hsession
    refine hwatch s a v session ?_ (ha.canRestore hsession)
    rw [(hv.houses (hsame.houses hs)).sessionOf?, hsession]

/-- Reading a text and evaluating it keeps what was written. -/
theorem upholds_interpret (hE : Embedding.PassesOn E) (hwatch : LetsPass watch) (hs : w.Houses s i)
    (text : String) :
    Upholds w (fun v a => a.IsWritten v i) (interpret s text) (interpretWatched watch s text) := by
  refine upholds_bind (upholds_session hs) fun v session hv hsession => ?_
  refine upholds_bind (upholds_parse hsession text) fun u p hu hp x hx hauthored => ?_
  have hgrows := hv.trans (hu.trans hx)
  have hevery := upholdEvery_evaluateWatched hE hwatch i x.budget
  exact hevery.value (hgrows.houses hs) (hx.canRead hp) x (.refl x) hauthored

end

/-! ## Starts of sessions -/

section

variable {w : World E} {s : ScopeId} {i : Nat}

/-- A function from outside of the language is bound under each of its names. -/
theorem upholds_installNamed (hs : w.Houses s i) (names : List String) {body : Body E}
    (hbody : ¬body.IsDefined) :
    Upholds w (fun _ _ => True) (installNamed s names body) (installNamed s names body) := by
  refine upholds_bind upholds_newId fun v id hv _ => upholds_bindAll (hv.houses hs) fun entry he => ?_
  obtain ⟨name, -, rfl⟩ := List.mem_map.mp he
  exact .function (Function.isWritten_of_not_isDefined hbody v i)

/-- The special forms are bound. -/
theorem upholds_installForms (hs : w.Houses s i) (forms : List Form) :
    Upholds w (fun _ _ => True) (installForms s forms) (installForms s forms) := by
  induction forms generalizing w with
  | nil => exact upholds_pure fun _ _ => trivial
  | cons form forms ih =>
    exact upholds_bind (upholds_installNamed hs form.names id) fun _ _ hv _ => ih (hv.houses hs)

/-- The builtin operations are bound. -/
theorem upholds_installBuiltins (hs : w.Houses s i) (bs : List Builtin) :
    Upholds w (fun _ _ => True) (installBuiltins s bs) (installBuiltins s bs) := by
  induction bs generalizing w with
  | nil => exact upholds_pure fun _ _ => trivial
  | cons b bs ih =>
    exact upholds_bind (upholds_installNamed hs [b.name] id) fun _ _ hv _ => ih (hv.houses hs)

/-- A function of the embedder is bound, if its parameters go together. -/
theorem upholds_register [Embedding E] (hs : w.Houses s i) (name : String) (e : E) :
    Upholds w (fun _ _ => True) (register s name e) (register s name e) := by
  unfold register
  cases Embedding.native e with
  | typed f =>
    refine upholds_bind (Q := fun _ _ => True) (upholds_ofExcept fun _ _ _ _ => trivial) ?_
    exact fun v _ hv _ => upholds_installNamed (hv.houses hs) [name] id
  | passThrough run => exact upholds_installNamed hs [name] id

namespace World.IsAuthored

/-- A session may be added whose host functions were not made in the language. -/
theorem pushSession (h : w.IsAuthored) {session : Session E}
    (hhost : ∀ f, session.host.Offers f → ¬f.body.IsDefined) :
    ({ w with sessions := w.sessions.push session } : World E).IsAuthored := by
  -- The new session comes behind all that scopes belong to, so none of them is concerned.
  have hold : ∀ {i : Nat}, i < w.sessions.size → (w.sessions.push session)[i]? = w.sessions[i]? := by
    intro i hi
    rw [Array.getElem?_push, if_neg (Nat.ne_of_lt hi)]
  refine ⟨fun hs he => (h.tables hs he).mono fun f hf => ?_, h.parents, fun hs => ?_, fun hs hf => ?_⟩
  · have hsession := hold (h.sessions hs)
    exact ⟨fun found hfound => hf.source found (hsession ▸ hfound),
      fun found hfound => hf.nested found (hsession ▸ hfound), hf.houses⟩
  · rw [Array.size_push]
    exact Nat.lt_succ_of_lt (h.sessions hs)
  · rcases Array.mem_push.mp hs with hbefore | rfl
    · exact h.hosts hbefore hf
    · exact hhost _ hf

/-- A session may start that binds nothing. Its root is of the new session. -/
theorem openBare (h : w.IsAuthored) {host : Host E}
    (hhost : ∀ f, host.Offers f → ¬f.body.IsDefined) (loader : Loader) (comments : Bool)
    (maxDepth : Nat) :
    (openBare host loader comments maxDepth w).2.IsAuthored ∧
      (FlatLisp.openBare host loader comments maxDepth w).2.Houses w.scopes.size w.sessions.size := by
  let session : Session E := ⟨host, loader, comments, maxDepth, 0, false⟩
  let w₁ : World E := { w with sessions := w.sessions.push session }
  have hsession : w₁.IsAuthored := h.pushSession hhost
  have hparent : ∀ t, (none : Option ScopeId) = some t → w₁.Houses t w.sessions.size := nofun
  have hlast : w.sessions.size < w₁.sessions.size := by simp [w₁]
  refine ⟨(hsession.pushScope hlast hparent).2, ⟨[], none, w.sessions.size⟩, ?_, rfl⟩
  exact Array.getElem?_push_size

/-- A session may start with the special forms and the builtin operations. -/
theorem openRoot (h : w.IsAuthored) {host : Host E}
    (hhost : ∀ f, host.Offers f → ¬f.body.IsDefined) (loader : Loader) (comments : Bool)
    (maxDepth : Nat) : (openRoot host loader comments maxDepth w).2.IsAuthored := by
  obtain ⟨hbare, hroot⟩ := h.openBare hhost loader comments maxDepth
  have hstart : FlatLisp.openBare host loader comments maxDepth w =
      (.ok w.scopes.size, (FlatLisp.openBare host loader comments maxDepth w).2) := rfl
  have hinstalled := upholds_bind (upholds_installForms hroot Form.all) fun v _ hv _ =>
    upholds_bind (upholds_installBuiltins (hv.houses hroot) Builtin.all) fun _ _ _ _ =>
      upholds_pure (Q := fun _ _ => True) (a := w.scopes.size) fun _ _ => trivial
  unfold FlatLisp.openRoot
  rw [Correspondence.run_bind_ok _ hstart]
  exact (hinstalled _ (.refl _) hbare).2.authored

end World.IsAuthored

end

/-! ## Scripted worlds -/

/-- A scope that exists is of some session. -/
theorem World.exists_houses {w : World E} {s : ScopeId} (hs : s < w.scopes.size) :
    ∃ i, w.Houses s i :=
  ⟨_, _, Array.getElem?_eq_getElem hs, rfl⟩

variable [Embedding E]

/-- Worlds in which sessions are started, with or without the special forms and the builtin operations,
and then driven by texts, all in any order. The host may bind values, among them functions of the
embedder, and make scopes, but no function that was made in the language is given to a session. -/
inductive Scripted : World E → Prop
  /-- There is no session yet. -/
  | fresh {w : World E} (hscopes : w.scopes = #[]) (hsessions : w.sessions = #[]) : Scripted w
  /-- A function was made, for a registry of host functions. -/
  | made {w : World E} (h : Scripted w) (label : Option String) (body : Body E) :
      Scripted (Function.make label body w).2
  | bare {w : World E} (h : Scripted w) {host : Host E}
      (hhost : ∀ f, host.Offers f → ¬f.body.IsDefined) (loader : Loader) (comments : Bool)
      (maxDepth : Nat) : Scripted (openBare host loader comments maxDepth w).2
  | opened {w : World E} (h : Scripted w) {host : Host E}
      (hhost : ∀ f, host.Offers f → ¬f.body.IsDefined) (loader : Loader) (comments : Bool)
      (maxDepth : Nat) : Scripted (openRoot host loader comments maxDepth w).2
  | registered {w : World E} (h : Scripted w) {s : ScopeId} (hs : s < w.scopes.size) (name : String)
      (e : E) : Scripted (register s name e w).2
  | bound {w : World E} (h : Scripted w) {s : ScopeId} (hs : s < w.scopes.size) (name : String)
      {a : Value E} (ha : a.All fun f => ¬f.body.IsDefined) : Scripted (EvalM.bind s name a w).2
  | child {w : World E} (h : Scripted w) {s : ScopeId} (hs : s < w.scopes.size) :
      Scripted (EvalM.child s w).2
  | interpreted {w : World E} (h : Scripted w) (s : ScopeId) (text : String) :
      Scripted (interpret s text w).2
  /-- Some evaluations of a session are under way. -/
  | nested {w : World E} (h : Scripted w) (session depth : Nat) : Scripted (w.setDepth session depth)
  /-- Some sessions have ended. -/
  | ended {w : World E} (h : Scripted w) (ended : Nat → Bool) :
      Scripted { w with
        sessions := w.sessions.mapIdx fun i session => { session with ended := ended i } }

/-- Reading a text and evaluating it keeps worlds authored. -/
theorem World.IsAuthored.interpret (hE : Embedding.PassesOn E) {w : World E} (h : w.IsAuthored)
    (s : ScopeId) (text : String) : (interpret s text w).2.IsAuthored := by
  by_cases hs : s < w.scopes.size
  · obtain ⟨i, hs⟩ := World.exists_houses hs
    have hpass : LetsPass fun _ (a : Value E) => pure a := fun _ _ _ _ _ _ => rfl
    exact (upholds_interpret hE hpass hs text w (.refl w) h).2.authored
  · have hlost : EvalM.session s w = (.error (.domain .lostScope), w) := by
      unfold EvalM.session World.sessionOf?
      rw [Array.getElem?_eq_none (Nat.le_of_not_lt hs)]
      rfl
    unfold FlatLisp.interpret
    rw [Correspondence.run_bind_error _ hlost]
    exact h

/-- Scripted worlds are authored. -/
theorem Scripted.isAuthored (hE : Embedding.PassesOn E) {w : World E} (h : Scripted w) :
    w.IsAuthored := by
  induction h with
  | fresh hscopes hsessions =>
    refine ⟨fun hs => ?_, fun hs => ?_, fun hs => ?_, fun hs => ?_⟩
    · simp [hscopes] at hs
    · simp [hscopes] at hs
    · simp [hscopes] at hs
    · simp [hsessions] at hs
  | made _ label body ih => exact ih.of_eq rfl rfl
  | bare _ hhost loader comments maxDepth ih => exact (ih.openBare hhost loader comments maxDepth).1
  | opened _ hhost loader comments maxDepth ih => exact ih.openRoot hhost loader comments maxDepth
  | registered _ hs name e ih =>
    obtain ⟨i, hs⟩ := World.exists_houses hs
    exact (upholds_register hs name e _ (.refl _) ih).2.authored
  | bound _ hs name ha ih =>
    obtain ⟨i, hs⟩ := World.exists_houses hs
    refine (upholds_bindName hs name (ha.mono fun f hf => ?_) _ (.refl _) ih).2.authored
    exact Function.isWritten_of_not_isDefined hf _ i
  | child _ hs ih =>
    obtain ⟨i, hs⟩ := World.exists_houses hs
    exact (upholds_child hs _ (.refl _) ih).2.authored
  | interpreted _ s text ih => exact ih.interpret hE s text
  | nested _ session depth ih => exact ih.of_sameRules (.setDepth _ session depth)
  | ended _ ended ih => exact ih.of_sameRules (.mapEnded _ ended)

/-- Whatever a session reads, every function made in the language that comes up while it evaluates the
text can be made again from the text of the function, as the session reads it. So a second look at every
value on the way makes no difference if it lets pass what can be made again, and the same holds of the
functions in the result and in all bindings that are left. -/
theorem function_texts_reread (hE : Embedding.PassesOn E) {w : World E} (hw : Scripted w) {s : ScopeId}
    {session : Session E} (hs : w.sessionOf? s = some session) (text : String) :
    (∀ watch, LetsPass watch → interpretWatched watch s text w = interpret s text w) ∧
    (∀ a, (interpret s text w).1 = .ok a → a.All session.CanRestore) ∧
    ∀ t scope owner entry, (interpret s text w).2.scopes[t]? = some scope → entry ∈ scope.table →
      (interpret s text w).2.sessionOf? t = some owner → entry.2.All owner.CanRestore := by
  obtain ⟨scope, hscope, hsession⟩ := Option.bind_eq_some_iff.mp hs
  have hhouses : w.Houses s scope.session := ⟨scope, hscope, rfl⟩
  have hauthored := hw.isAuthored hE
  have hrun : ∀ watch, LetsPass watch → interpretWatched watch s text w = interpret s text w ∧
      Upheld w (fun v a => a.IsWritten v scope.session) (interpret s text w) :=
    fun watch hwatch => upholds_interpret hE hwatch hhouses text w (.refl w) hauthored
  obtain ⟨-, hkept⟩ := hrun (fun _ a => pure a) fun _ _ _ _ _ _ => rfl
  refine ⟨fun watch hwatch => (hrun watch hwatch).1, fun a hok => ?_, ?_⟩
  · refine (hkept.result hok).canRestore ?_
    rw [hkept.grows.sessions, hsession]
  · intro t scope owner entry hfound he howner
    refine (hkept.authored.tables hfound he).canRestore ?_
    rw [World.sessionOf?, hfound, Option.bind_some] at howner
    exact howner

/-- A session with comments that runs sample functions. -/
def commentingSession : World Embed.Sample :=
  (openRoot .empty .disabled true 8 World.empty).2

/-- A template that is expanded to a function, written with the short keywords. -/
def expandingText : String :=
  "((mac (body) (lam (x) body)) (+ x 1)) ; one more"

/-- The function that a run ended with. -/
def madeFunction? {E : Type} : Except Error (Value E) → Option (Function E)
  | .ok (.function f) => some f
  | _ => none

theorem ok_of_madeFunction? {E : Type} {outcome : Except Error (Value E)} {f : Function E}
    (h : madeFunction? outcome = some f) : outcome = .ok (.function f) := by
  unfold madeFunction? at h
  split at h
  · cases h
    rfl
  · cases h

/-- The function that the expanded template makes can be made again from its text. -/
theorem function_texts_reread_expandingText :
    Scripted commentingSession ∧ ∃ f : Function Embed.Sample,
      (interpret 0 expandingText commentingSession).1 = .ok (.function f) ∧
      f.label = some "(lambda (x) (+ x 1))" ∧ f.Rereads true := by
  have hhost : ∀ f, (Host.empty : Host Embed.Sample).Offers f → ¬f.body.IsDefined :=
    fun f hf => absurd hf (Host.not_offers_empty f)
  have hscripted : Scripted commentingSession := (Scripted.fresh rfl rfl).opened hhost .disabled true 8
  have hcomments : (commentingSession.sessionOf? 0).map Session.comments = some true := by
    decide +kernel
  have hmade : (madeFunction? (interpret 0 expandingText commentingSession).1).map
      (fun f => (f.label, f.scope?)) = some (some "(lambda (x) (+ x 1))", some 0) := by
    decide +kernel
  obtain ⟨session, hsession, hreads⟩ := Option.map_eq_some_iff.mp hcomments
  have hreread := (function_texts_reread Embed.passesOn_sample hscripted hsession expandingText).2.1
  obtain ⟨f, hf, hfields⟩ := Option.map_eq_some_iff.mp hmade
  obtain ⟨hlabel, hscope⟩ := Prod.mk.inj hfields
  have hrun := ok_of_madeFunction? hf
  refine ⟨hscripted, f, hrun, hlabel, ?_⟩
  have hdefined : f.body.IsDefined := by
    obtain ⟨id, label, body⟩ := f
    cases body with
    | closure => trivial
    | _ => cases hscope
  cases hreread _ hrun with
  | function h =>
    rw [← hreads]
    exact (h hdefined).2

end FlatLisp
