import FlatLisp.Proofs.Scopes
import FlatLisp.Proofs.Simulation.Evaluation
import FlatLisp.Proofs.Simulation.Sample

/-!
# Depth limits

A depth limit does nothing but cut runs short. Two runs that differ only in how deep one session is
and how deep it may get stay alike until the first one has used up its limit. If both may nest the
same number of evaluations they stay alike to the end. And however an evaluation ends, every session
is as deep as it was.
-/

namespace FlatLisp

variable {E : Type}

/-- A session at the given depth, under the given limit. -/
def Session.withDepth (session : Session E) (depth maxDepth : Nat) : Session E :=
  { session with depth := depth, maxDepth := maxDepth }

/-- The world with one session at the given depth, under the given limit. -/
def World.withDepth (w : World E) (i depth maxDepth : Nat) : World E :=
  { w with sessions := w.sessions.modify i fun session => session.withDepth depth maxDepth }

namespace World

variable {w : World E}

/-- One session is at the depth and under the limit. -/
theorem getElem?_withDepth (w : World E) (i depth maxDepth j : Nat) :
    (w.withDepth i depth maxDepth).sessions[j]? =
      if i = j then (w.sessions[j]?).map fun session => session.withDepth depth maxDepth
      else w.sessions[j]? :=
  Array.getElem?_modify

/-- Of two depths and limits the latter count. -/
theorem withDepth_withDepth (w : World E) (i depth maxDepth depth' maxDepth' : Nat) :
    (w.withDepth i depth maxDepth).withDepth i depth' maxDepth' = w.withDepth i depth' maxDepth' := by
  simp only [withDepth, modify_modify]
  rfl

/-- Nesting in the session itself, which was `inner` deep without the change. -/
theorem setDepth_withDepth_self (w : World E) (i depth maxDepth inner depth' : Nat) :
    (w.withDepth i depth maxDepth).setDepth i depth' =
      (w.setDepth i inner).withDepth i depth' maxDepth := by
  simp only [withDepth, setDepth, modify_modify]
  rfl

/-- Nesting in another session. -/
theorem setDepth_withDepth_of_ne (w : World E) {i j : Nat} (h : i ≠ j)
    (depth maxDepth depth' : Nat) :
    (w.withDepth i depth maxDepth).setDepth j depth' =
      (w.setDepth j depth').withDepth i depth maxDepth := by
  simp only [withDepth, setDepth, modify_comm w.sessions h]

/-- What is in sight does not depend on depths. -/
theorem visible_withDepth (w : World E) (i depth maxDepth : Nat) (s : ScopeId) :
    (w.withDepth i depth maxDepth).visible s = w.visible s := by
  have hscopes : (w.withDepth i depth maxDepth).scopes = w.scopes := rfl
  exact visible_of_scopes_eq hscopes s

/-- How a scope finds its session does not depend on depths. -/
theorem sessionOf?_withDepth (w : World E) (i depth maxDepth : Nat) (s : ScopeId) :
    (w.withDepth i depth maxDepth).sessionOf? s = w.sessionOf? s ∨
      (w.withDepth i depth maxDepth).sessionOf? s =
        (w.sessionOf? s).map fun session => session.withDepth depth maxDepth := by
  unfold sessionOf?
  change (w.scopes[s]?).bind _ = _ ∨ (w.scopes[s]?).bind _ = _
  cases w.scopes[s]? with
  | none => exact .inl rfl
  | some scope =>
    simp only [Option.bind_some]
    rw [getElem?_withDepth]
    split
    · exact .inr rfl
    · exact .inl rfl

/-- A scope that is lost is lost at any depth. -/
theorem sessionOf?_withDepth_of_lost {s : ScopeId} (h : w.sessionOf? s = none)
    (i depth maxDepth : Nat) : (w.withDepth i depth maxDepth).sessionOf? s = none := by
  rcases w.sessionOf?_withDepth i depth maxDepth s with hw | hw
  · rw [hw, h]
  · rw [hw, h, Option.map_none]

end World

/-! ## Runs at two depths -/

open Correspondence

/-- Runs that differ in one session. In the first run the sessions are `sessions`, and `limit` is the
limit of session `i`; in the second run that session is at `depth'` under `limit'`. If the change is
`tight`, both runs exhaust their limits together; otherwise the first one may do so alone. -/
def depthCorrespondence (sessions : Array (Session E)) (i limit depth' limit' : Nat)
    (tight : Prop) : Correspondence E where
  Ids := Eq
  Captures := Eq
  Admits _ := True
  Objects := Eq
  Scopes := Eq
  Worlds w w' := w.sessions = sessions ∧ w' = w.withDepth i depth' limit'
  Failures e w e' w' := (w.sessions = sessions ∧ w' = w.withDepth i depth' limit') ∧
    (e = e' ∨ tight ∧ e = .stackExhausted limit ∧ e' = .stackExhausted limit')
  Cut e w := ¬tight ∧ e = .stackExhausted limit ∧ w.sessions = sessions

namespace depthCorrespondence

variable (sessions : Array (Session E)) (i limit depth' limit' : Nat) (tight : Prop)

/-- Data are the same in both runs. -/
theorem isExact : (depthCorrespondence sessions i limit depth' limit' tight).IsExact where
  ids := Iff.rfl
  captures := Iff.rfl
  admits _ := trivial
  objects := Iff.rfl

/-- Names are found alike in both runs. -/
theorem runs_lookup (s : ScopeId) (name : String) :
    (depthCorrespondence sessions i limit depth' limit' tight).Runs Eq (EvalM.lookup s name)
      (EvalM.lookup s name) := by
  intro w w' hw
  obtain ⟨hsessions, rfl⟩ := hw
  have hfind : (w.withDepth i depth' limit').find? s name = w.find? s name := by
    unfold World.find?
    rw [World.visible_withDepth]
  have hhost : (((w.withDepth i depth' limit').sessionOf? s).bind fun session =>
      session.host.resolve? name) = (w.sessionOf? s).bind fun session =>
        session.host.resolve? name := by
    rcases w.sessionOf?_withDepth i depth' limit' s with h | h
    · rw [h]
    · rw [h, Option.bind_map]
      rfl
  unfold EvalM.lookup
  rw [hfind, hhost]
  cases w.find? s name with
  | some v => exact .ok rfl ⟨hsessions, rfl⟩
  | none =>
    dsimp only
    cases (w.sessionOf? s).bind fun session => session.host.resolve? name with
    | some f => exact .ok rfl ⟨hsessions, rfl⟩
    | none => exact .failed ⟨⟨hsessions, rfl⟩, .inl rfl⟩

/-- Sessions are found alike in both runs, but for their depth. -/
theorem runs_session (s : ScopeId) :
    (depthCorrespondence sessions i limit depth' limit' tight).Runs
      (fun session session' => session.loader = session'.loader ∧
        session.comments = session'.comments)
      (EvalM.session s) (EvalM.session s) := by
  intro w w' hw
  obtain ⟨hsessions, rfl⟩ := hw
  have hlost : (depthCorrespondence sessions i limit depth' limit' tight).Failures
      (.domain .lostScope) w (.domain .lostScope) (w.withDepth i depth' limit') :=
    ⟨⟨hsessions, rfl⟩, .inl rfl⟩
  unfold EvalM.session
  cases hsession : w.sessionOf? s with
  | none =>
    rw [World.sessionOf?_withDepth_of_lost hsession i depth' limit']
    exact .failed hlost
  | some session =>
    have hsome : ∃ session', (w.withDepth i depth' limit').sessionOf? s = some session' ∧
        session.loader = session'.loader ∧ session.comments = session'.comments ∧
        session.ended = session'.ended := by
      rcases w.sessionOf?_withDepth i depth' limit' s with h | h
      · exact ⟨session, by rw [h, hsession], rfl, rfl, rfl⟩
      · exact ⟨session.withDepth depth' limit', by rw [h, hsession, Option.map_some], rfl, rfl, rfl⟩
    obtain ⟨session', hsession', hloader, hcomments, hended⟩ := hsome
    rw [hsession']
    dsimp only
    rw [hended]
    split
    · exact .failed hlost
    · exact .ok ⟨hloader, hcomments⟩ ⟨hsessions, rfl⟩

/-- Sources are loaded alike in both runs. -/
theorem runs_loadSource (s : ScopeId) (path : String) :
    (depthCorrespondence sessions i limit depth' limit' tight).Runs Eq (Form.loadSource s path)
      (Form.loadSource s path) := by
  refine runs_bind (runs_session sessions i limit depth' limit' tight s) ?_
  intro session session' hsession w w' hw
  obtain ⟨hsessions, rfl⟩ := hw
  rw [hsession.1, hsession.2]
  cases htext : session'.loader.load path with
  | error e =>
    rw [run_bind_error _ (EvalM.load_eq htext w), run_bind_error _ (EvalM.load_eq htext _)]
    exact .failed ⟨⟨hsessions, rfl⟩, .inl rfl⟩
  | ok text =>
    rw [run_bind_ok _ (EvalM.load_eq htext w), run_bind_ok _ (EvalM.load_eq htext _)]
    dsimp only [EvalM.ofExcept]
    cases (Program.parse session'.comments text).mapError Error.malformedProgram with
    | error e => exact .failed ⟨⟨hsessions, rfl⟩, .inl rfl⟩
    | ok p => exact .ok rfl ⟨hsessions, rfl⟩

/-- New scopes are made alike in both runs. -/
theorem runs_child (s : ScopeId) :
    (depthCorrespondence sessions i limit depth' limit' tight).Runs Eq (EvalM.child s)
      (EvalM.child s) := by
  intro w w' hw
  obtain ⟨hsessions, rfl⟩ := hw
  have hscopes : (w.withDepth i depth' limit').scopes = w.scopes := rfl
  unfold EvalM.child
  rw [hscopes]
  cases w.scopes[s]? with
  | none => exact .failed ⟨⟨hsessions, rfl⟩, .inl rfl⟩
  | some scope => exact .ok rfl ⟨hsessions, rfl⟩

/-- The primitives of evaluation do not look at depths. -/
def simulation : Simulation E where
  toCorrespondence := depthCorrespondence sessions i limit depth' limit' tight
  ids_unique ha hb := by
    cases ha
    cases hb
    exact Iff.rfl
  objects_ids ho := congrArg _ ho
  objects_text ho := congrArg _ ho
  objects_plain ha text := congrArg (ObjectOf.mk · text none) ha
  objects_snapshot ha he := by
    cases ha
    rw [(isExact sessions i limit depth' limit' tight).bindings_iff.mp he]
    rfl
  admits_split _ _ := trivial
  admits_substitute _ _ := trivial
  captures_of_scopes hs := hs
  fail _ hw := ⟨hw, .inl rfl⟩
  malformed _ _ _ hw := ⟨hw, .inl rfl⟩
  newId := by
    intro w w' hw
    obtain ⟨hsessions, rfl⟩ := hw
    exact .ok rfl ⟨hsessions, rfl⟩
  print := by
    intro text w w' hw
    obtain ⟨hsessions, rfl⟩ := hw
    exact .ok rfl ⟨hsessions, rfl⟩
  bind := by
    intro s s' v v' name hs hv w w' hw
    obtain ⟨hsessions, rfl⟩ := hw
    cases hs
    cases (isExact sessions i limit depth' limit' tight).values_iff.mp hv
    exact .ok rfl ⟨hsessions, rfl⟩
  child := by
    intro s s' hs
    cases hs
    exact runs_child sessions i limit depth' limit' tight s
  session := by
    intro s s' hs
    cases hs
    exact (runs_session sessions i limit depth' limit' tight s).mono fun _ _ _ => trivial
  source := by
    intro s s' path hs
    cases hs
    exact (runs_loadSource sessions i limit depth' limit' tight s path).mono
      fun _ _ hp => ⟨hp, trivial⟩
  lookup := by
    intro s s' name hs
    cases hs
    exact (runs_lookup sessions i limit depth' limit' tight s name).mono
      fun _ _ hv => (isExact sessions i limit depth' limit' tight).values_iff.mpr hv
  bindings := by
    intro s s' hs w w' hw
    obtain ⟨hsessions, rfl⟩ := hw
    cases hs
    have hbindings : (w.withDepth i depth' limit').bindings s = w.bindings s := by
      unfold World.bindings
      rw [World.visible_withDepth]
    exact .ok ((isExact sessions i limit depth' limit' tight).bindings_iff.mpr hbindings.symm)
      ⟨hsessions, rfl⟩
  hasLocal name hs hw := by
    rw [hs, hw.2]
    rfl
  isRoot hs hw := by
    rw [hs, hw.2]
    rfl

variable [Embedding E]

/-- Functions of the embedder that act through their caller do not look at depths. -/
theorem respectedByEmbedding (hE : Embedding.ActsThroughCaller E) :
    (simulation sessions i limit depth' limit' tight).RespectedByEmbedding :=
  hE _ ⟨isExact sessions i limit depth' limit' tight, fun _ _ _ hw => ⟨hw, .inl rfl⟩⟩

end depthCorrespondence

/-! ## Nesting at two depths -/

/-- In the world `w`, session `i` is at `depth` under `limit`. At `depth'` under `limit'` it is at
least as free to nest, and just as free if the change is `tight`; both runs have the fuel for it. -/
structure Loosens (w : World E) (i depth limit depth' limit' : Nat) (tight : Prop)
    (fuel fuel' : Nat) : Prop where
  own {session : Session E} (h : w.sessions[i]? = some session) :
    session.depth = depth ∧ session.maxDepth = limit
  slack : limit - depth ≤ limit' - depth'
  tight (h : tight) : limit - depth = limit' - depth'
  covers : w.budget ≤ fuel
  covers' : (w.withDepth i depth' limit').budget ≤ fuel'

namespace Loosens

variable {w v : World E} {i depth limit depth' limit' : Nat} {tight : Prop} {fuel fuel' : Nat}

/-- Only sessions count. -/
theorem of_sessions_eq (h : Loosens w i depth limit depth' limit' tight fuel fuel')
    (hv : v.sessions = w.sessions) : Loosens v i depth limit depth' limit' tight fuel fuel' := by
  have hbudget : v.budget = w.budget := by rw [World.budget, World.budget, hv]
  have hbudget' : (v.withDepth i depth' limit').budget = (w.withDepth i depth' limit').budget := by
    simp only [World.budget, World.withDepth, hv]
  exact ⟨fun hown => h.own (hv ▸ hown), h.slack, h.tight, hbudget ▸ h.covers, hbudget' ▸ h.covers'⟩

/-- An evaluation nested in the session itself. -/
theorem nested_self (h : Loosens w i depth limit depth' limit' tight fuel fuel')
    {session : Session E} (hsession : w.sessions[i]? = some session) (hdepth : depth < limit) :
    (0 < fuel ∧ 0 < fuel') ∧ Loosens (w.setDepth i (depth + 1)) i (depth + 1) limit (depth' + 1)
      limit' tight (fuel - 1) (fuel' - 1) := by
  obtain ⟨rfl, rfl⟩ := h.own hsession
  have hslack := h.slack
  have hcovers := h.covers
  have hcovers' := h.covers'
  have hsession' : (w.withDepth i depth' limit').sessions[i]? =
      some (session.withDepth depth' limit') := by
    rw [World.getElem?_withDepth, if_pos rfl, hsession, Option.map_some]
  have hdepth' : depth' < limit' := by omega
  have hbudget := World.budget_setDepth hsession hdepth
  have hbudget' : ((w.withDepth i depth' limit').setDepth i (depth' + 1)).budget + 1 =
      (w.withDepth i depth' limit').budget := World.budget_setDepth hsession' hdepth'
  rw [World.setDepth_withDepth_self w i depth' limit' (session.depth + 1)] at hbudget'
  refine ⟨by omega, fun hown => ?_, by omega, fun htight => ?_, by omega, by omega⟩
  · rw [World.getElem?_setDepth, if_pos rfl, hsession] at hown
    cases hown
    exact ⟨rfl, rfl⟩
  · have heq := h.tight htight
    omega

/-- An evaluation nested in another session. -/
theorem nested_of_ne (h : Loosens w i depth limit depth' limit' tight fuel fuel') {j : Nat}
    (hne : i ≠ j) {session : Session E} (hsession : w.sessions[j]? = some session)
    (hdepth : session.depth < session.maxDepth) :
    (0 < fuel ∧ 0 < fuel') ∧ Loosens (w.setDepth j (session.depth + 1)) i depth limit depth' limit'
      tight (fuel - 1) (fuel' - 1) := by
  have hcovers := h.covers
  have hcovers' := h.covers'
  have hsession' : (w.withDepth i depth' limit').sessions[j]? = some session := by
    rw [World.getElem?_withDepth, if_neg hne, hsession]
  have hbudget := World.budget_setDepth hsession hdepth
  have hbudget' := World.budget_setDepth hsession' hdepth
  rw [World.setDepth_withDepth_of_ne w hne] at hbudget'
  refine ⟨by omega, fun hown => ?_, h.slack, h.tight, by omega, by omega⟩
  rw [World.getElem?_setDepth, if_neg (Ne.symm hne)] at hown
  exact h.own hown

end Loosens

namespace depthCorrespondence

variable {w : World E} {i depth limit depth' limit' : Nat} {tight : Prop} {fuel fuel' : Nat}

/-- What runs one evaluation deeper leave behind once the depths are set back. -/
theorem outcomes_setDepth {sessions inner : Array (Session E)} {inner' j back back' : Nat}
    (hback : ∀ u : World E, u.sessions = inner → (u.setDepth j back).sessions = sessions ∧
      (u.withDepth i inner' limit').setDepth j back' =
        (u.setDepth j back).withDepth i depth' limit')
    {α : Type} {o o' : Except Error α × World E}
    (h : (depthCorrespondence inner i limit inner' limit' tight).Outcomes Eq o o') :
    (depthCorrespondence sessions i limit depth' limit' tight).Outcomes Eq
      (o.1, o.2.setDepth j back) (o'.1, o'.2.setDepth j back') := by
  cases h with
  | ok ha hw =>
    obtain ⟨hsessions, rfl⟩ := hw
    exact .ok ha (hback _ hsessions)
  | failed he =>
    obtain ⟨⟨hsessions, rfl⟩, he⟩ := he
    exact .failed ⟨hback _ hsessions, he⟩
  | cut _ he => exact .cut _ ⟨he.1, he.2.1, (hback _ he.2.2).1⟩

variable {s : ScopeId} {scope : Scope E} {session : Session E} {α : Type} {act act' : EvalM E α}

/-- Computations that correspond one evaluation deeper, wherever that is. -/
def RunsDeeper (i limit limit' : Nat) (tight : Prop) (fuel fuel' : Nat) (act act' : EvalM E α) :
    Prop :=
  0 < fuel → 0 < fuel' → ∀ {inner : World E} {d d' : Nat},
    Loosens inner i d limit d' limit' tight (fuel - 1) (fuel' - 1) →
    (depthCorrespondence inner.sessions i limit d' limit' tight).Runs Eq act act'

/-- Runs that correspond one evaluation deeper in the session itself. -/
theorem outcomes_nested_self (h : Loosens w i depth limit depth' limit' tight fuel fuel')
    (hscope : w.scopes[s]? = some scope) (hi : scope.session = i)
    (hsession : w.sessions[i]? = some session)
    (hact : RunsDeeper i limit limit' tight fuel fuel' act act') :
    (depthCorrespondence w.sessions i limit depth' limit' tight).Outcomes Eq (EvalM.nested s act w)
      (EvalM.nested s act' (w.withDepth i depth' limit')) := by
  subst hi
  have hscope' : (w.withDepth scope.session depth' limit').scopes[s]? = some scope := hscope
  have hsession' : (w.withDepth scope.session depth' limit').sessions[scope.session]? =
      some (session.withDepth depth' limit') := by
    rw [World.getElem?_withDepth, if_pos rfl, hsession, Option.map_some]
  obtain ⟨rfl, rfl⟩ := h.own hsession
  have hslack := h.slack
  by_cases hdepth : session.depth < session.maxDepth
  · obtain ⟨⟨hfuel, hfuel'⟩, hinner⟩ := h.nested_self hsession hdepth
    have hrun := hact hfuel hfuel' hinner (w.setDepth scope.session (session.depth + 1)) _ ⟨rfl, rfl⟩
    have hdepth' : depth' < limit' := by omega
    rw [EvalM.nested_of_free act hscope hsession hdepth,
      EvalM.nested_of_free act' hscope' hsession' hdepth']
    simp only [Session.withDepth]
    rw [World.setDepth_withDepth_self w scope.session depth' limit' (session.depth + 1)]
    exact outcomes_setDepth (fun u hu => ⟨World.sessions_setDepth_back hsession hu,
      World.setDepth_withDepth_self u scope.session (depth' + 1) limit' session.depth depth'⟩) hrun
  · rw [EvalM.nested_of_full act (World.sessionOf?_eq_some hscope hsession) hdepth]
    by_cases htight : tight
    · have heq := h.tight htight
      have hdepth' : ¬depth' < limit' := by omega
      rw [EvalM.nested_of_full act' (World.sessionOf?_eq_some hscope' hsession') hdepth']
      exact .failed ⟨⟨rfl, rfl⟩, .inr ⟨htight, rfl, rfl⟩⟩
    · exact .cut _ ⟨htight, rfl, rfl⟩

/-- Runs that correspond one evaluation deeper in another session. -/
theorem outcomes_nested_of_ne (h : Loosens w i depth limit depth' limit' tight fuel fuel')
    (hscope : w.scopes[s]? = some scope) (hne : i ≠ scope.session)
    (hsession : w.sessions[scope.session]? = some session)
    (hact : RunsDeeper i limit limit' tight fuel fuel' act act') :
    (depthCorrespondence w.sessions i limit depth' limit' tight).Outcomes Eq (EvalM.nested s act w)
      (EvalM.nested s act' (w.withDepth i depth' limit')) := by
  have hscope' : (w.withDepth i depth' limit').scopes[s]? = some scope := hscope
  have hsession' : (w.withDepth i depth' limit').sessions[scope.session]? = some session := by
    rw [World.getElem?_withDepth, if_neg hne, hsession]
  by_cases hdepth : session.depth < session.maxDepth
  · obtain ⟨⟨hfuel, hfuel'⟩, hinner⟩ := h.nested_of_ne hne hsession hdepth
    have hrun := hact hfuel hfuel' hinner (w.setDepth scope.session (session.depth + 1)) _ ⟨rfl, rfl⟩
    rw [EvalM.nested_of_free act hscope hsession hdepth,
      EvalM.nested_of_free act' hscope' hsession' hdepth, World.setDepth_withDepth_of_ne w hne]
    exact outcomes_setDepth (fun u hu => ⟨World.sessions_setDepth_back hsession hu,
      World.setDepth_withDepth_of_ne u hne depth' limit' session.depth⟩) hrun
  · rw [EvalM.nested_of_full act (World.sessionOf?_eq_some hscope hsession) hdepth,
      EvalM.nested_of_full act' (World.sessionOf?_eq_some hscope' hsession') hdepth]
    exact .failed ⟨⟨rfl, rfl⟩, .inl rfl⟩

/-- Runs that correspond one evaluation deeper correspond. -/
theorem runs_nested (h : Loosens w i depth limit depth' limit' tight fuel fuel') (s : ScopeId)
    (hact : RunsDeeper i limit limit' tight fuel fuel' act act') :
    (depthCorrespondence w.sessions i limit depth' limit' tight).Runs Eq (EvalM.nested s act)
      (EvalM.nested s act') := by
  intro v v' hv
  obtain ⟨hsessions, rfl⟩ := hv
  replace h := h.of_sessions_eq hsessions
  rw [← hsessions]
  cases hof : v.sessionOf? s with
  | none =>
    have hof' := World.sessionOf?_withDepth_of_lost hof i depth' limit'
    rw [EvalM.nested_of_lost act hof, EvalM.nested_of_lost act' hof']
    exact .failed ⟨⟨rfl, rfl⟩, .inl rfl⟩
  | some session =>
    obtain ⟨scope, hscope, hsession⟩ := Option.bind_eq_some_iff.mp hof
    by_cases hi : scope.session = i
    · exact outcomes_nested_self h hscope hi (hi ▸ hsession) hact
    · exact outcomes_nested_of_ne h hscope (Ne.symm hi) hsession hact

variable [Embedding E]

/-- Evaluations at two depths correspond. -/
theorem evaluators (hE : Embedding.ActsThroughCaller E)
    (h : Loosens w i depth limit depth' limit' tight fuel fuel') :
    (simulation w.sessions i limit depth' limit' tight).Evaluators (evaluateWithin fuel)
      (evaluateWithin fuel') := by
  -- The induction is on the fuel of the first run. `Loosens` keeps the fuel of both runs above what
  -- their limits allow, so that running out of fuel never shows.
  induction fuel generalizing w depth depth' fuel' with
  | zero =>
    intro s s' p hs _
    cases hs
    have hruns : (depthCorrespondence w.sessions i limit depth' limit' tight).Runs Eq
        (evaluateWithin 0 s p) (evaluateWithin fuel' s p) := by
      cases fuel' <;> exact runs_nested h s fun hfuel => absurd hfuel (Nat.lt_irrefl 0)
    exact hruns.mono fun _ _ hv => (isExact ..).values_iff.mpr hv
  | succ fuel ih =>
    intro s s' p hs _
    cases hs
    have hruns : (depthCorrespondence w.sessions i limit depth' limit' tight).Runs Eq
        (evaluateWithin (fuel + 1) s p) (evaluateWithin fuel' s p) := by
      cases fuel' with
      | zero => exact runs_nested h s fun _ hfuel' => absurd hfuel' (Nat.lt_irrefl 0)
      | succ fuel' =>
        refine runs_nested h s fun _ _ {inner d d'} hinner => ?_
        have hp : (simulation inner.sessions i limit d' limit' tight).Admits p := trivial
        have hstep := Simulation.runs_step (respectedByEmbedding _ _ _ _ _ _ hE) (ih hinner)
          (Eq.refl s) hp
        exact hstep.mono fun _ _ hv => (isExact ..).values_iff.mp hv
    exact hruns.mono fun _ _ hv => (isExact ..).values_iff.mpr hv

end depthCorrespondence

variable [Embedding E]

/-- Evaluation at two depths, the second one at least as free to nest. -/
theorem outcomes_evaluate_withDepth (hE : Embedding.ActsThroughCaller E) (w : World E) (i : Nat)
    (s : ScopeId) (p : Program) (depth limit depth' limit' : Nat) (tight : Prop)
    (hslack : limit - depth ≤ limit' - depth') (htight : tight → limit - depth = limit' - depth') :
    (depthCorrespondence (w.withDepth i depth limit).sessions i limit depth' limit' tight).Outcomes Eq
      (evaluate s p (w.withDepth i depth limit)) (evaluate s p (w.withDepth i depth' limit')) := by
  have hchanged := w.withDepth_withDepth i depth limit depth' limit'
  have hloosens : Loosens (w.withDepth i depth limit) i depth limit depth' limit' tight
      (w.withDepth i depth limit).budget (w.withDepth i depth' limit').budget := by
    refine ⟨fun hown => ?_, hslack, htight, Nat.le_refl _, hchanged ▸ Nat.le_refl _⟩
    rw [World.getElem?_withDepth, if_pos rfl] at hown
    obtain ⟨session, -, rfl⟩ := Option.map_eq_some_iff.mp hown
    exact ⟨rfl, rfl⟩
  have hruns := (depthCorrespondence.evaluators hE hloosens (Eq.refl s) (p := p) trivial).mono
    fun _ _ hv => (depthCorrespondence.isExact ..).values_iff.mp hv
  exact hruns _ _ ⟨rfl, hchanged.symm⟩

/-- However an evaluation ends, all sessions are as they were. -/
theorem sessions_evaluate (hE : Embedding.ActsThroughCaller E) (w : World E) (s : ScopeId)
    (p : Program) : (evaluate s p w).2.sessions = w.sessions := by
  -- A session that there is not has any depth and limit.
  have hsame : w.withDepth w.sessions.size 0 0 = w := by
    have hsessions : (w.withDepth w.sessions.size 0 0).sessions = w.sessions := by
      apply Array.ext_getElem?
      intro j
      rw [World.getElem?_withDepth]
      split
      · next heq => rw [← heq, Array.getElem?_eq_none (Nat.le_refl _), Option.map_none]
      · rfl
    exact congrArg (fun sessions => { w with sessions := sessions }) hsessions
  have h := outcomes_evaluate_withDepth hE w w.sessions.size s p 0 0 0 0 True (Nat.le_refl _)
    fun _ => rfl
  rw [hsame] at h
  generalize evaluate s p w = o at h ⊢
  cases h with
  | ok _ hw => exact hw.1
  | failed he => exact he.1.1
  | cut _ he => exact he.2.2

/-- A depth limit only cuts runs short. Take any session of any world, at depth `d` under limit `L`.
Under a larger limit an evaluation gives the same result and leaves the same world, unless it ends by
exhausting the limit `L`. At another depth, with a limit that leaves as much room, it gives the same
result and leaves the same world, but for the limit that is named when it is exhausted. And however
it ends, all sessions are as they were. -/
theorem evaluate_depthLimit (hE : Embedding.ActsThroughCaller E) (w : World E) (i : Nat)
    (s : ScopeId) (p : Program) (d L : Nat) :
    (∀ L', L ≤ L' →
      (evaluate s p (w.withDepth i d L)).1 = .error (.stackExhausted L) ∨
      (evaluate s p (w.withDepth i d L')).1 = (evaluate s p (w.withDepth i d L)).1 ∧
        (evaluate s p (w.withDepth i d L')).2 =
          (evaluate s p (w.withDepth i d L)).2.withDepth i d L') ∧
    (∀ d' L', L - d = L' - d' →
      ((evaluate s p (w.withDepth i d' L')).1 = (evaluate s p (w.withDepth i d L)).1 ∨
        (evaluate s p (w.withDepth i d L)).1 = .error (.stackExhausted L) ∧
          (evaluate s p (w.withDepth i d' L')).1 = .error (.stackExhausted L')) ∧
        (evaluate s p (w.withDepth i d' L')).2 =
          (evaluate s p (w.withDepth i d L)).2.withDepth i d' L') ∧
    (evaluate s p (w.withDepth i d L)).2.sessions = (w.withDepth i d L).sessions := by
  refine ⟨fun L' hL => ?_, fun d' L' hroom => ?_, ?_⟩
  · have h := outcomes_evaluate_withDepth hE w i s p d L d L' False (by omega) False.elim
    generalize evaluate s p (w.withDepth i d L) = o, evaluate s p (w.withDepth i d L') = o' at h ⊢
    cases h with
    | ok hv hw => exact .inr ⟨by rw [hv], hw.2⟩
    | failed he =>
      obtain ⟨hw, rfl | hboth⟩ := he
      · exact .inr ⟨rfl, hw.2⟩
      · exact hboth.1.elim
    | cut _ he => exact .inl (congrArg Except.error he.2.1)
  · have h := outcomes_evaluate_withDepth hE w i s p d L d' L' True (Nat.le_of_eq hroom) fun _ => hroom
    generalize evaluate s p (w.withDepth i d L) = o, evaluate s p (w.withDepth i d' L') = o' at h ⊢
    cases h with
    | ok hv hw => exact ⟨.inl (by rw [hv]), hw.2⟩
    | failed he =>
      obtain ⟨hw, rfl | ⟨-, rfl, rfl⟩⟩ := he
      · exact ⟨.inl rfl, hw.2⟩
      · exact ⟨.inr ⟨rfl, rfl⟩, hw.2⟩
    | cut _ he => exact absurd trivial he.1
  · have h := outcomes_evaluate_withDepth hE w i s p d L d L True (Nat.le_refl _) fun _ => rfl
    generalize evaluate s p (w.withDepth i d L) = o at h ⊢
    cases h with
    | ok _ hw => exact hw.1
    | failed he => exact he.1.1
    | cut _ he => exact he.2.2

/-- A world with one scope, which binds the function `twice` of the embedder. -/
def repeatingSession : World Embed.Sample where
  scopes := #[⟨[("twice", .function ⟨0, none, .embedded (.typed .twice)⟩)], none, 0⟩]
  sessions := #[⟨.empty, .disabled, false, 2, 0, false⟩]
  nextId := 1
  printed := ""
  requested := []

/-- Nesting a form twice over may exhaust a limit of two, but if it does not then a limit of three
makes no difference; and it does not matter whether the two levels are the first or the last. -/
theorem evaluate_depthLimit_repeatingSession :
    let p : Program := [.left, .word "twice", .left, .word "twice", .word "1", .right, .right]
    ((evaluate 0 p (repeatingSession.withDepth 0 0 2)).1 = .error (.stackExhausted 2) ∨
      (evaluate 0 p (repeatingSession.withDepth 0 0 3)).1 =
          (evaluate 0 p (repeatingSession.withDepth 0 0 2)).1 ∧
        (evaluate 0 p (repeatingSession.withDepth 0 0 3)).2 =
          (evaluate 0 p (repeatingSession.withDepth 0 0 2)).2.withDepth 0 0 3) ∧
    (evaluate 0 p (repeatingSession.withDepth 0 7 9)).2 =
      (evaluate 0 p (repeatingSession.withDepth 0 0 2)).2.withDepth 0 7 9 := by
  have h := evaluate_depthLimit Embed.isParametric_sample.actsThroughCaller repeatingSession 0 0
    [.left, .word "twice", .left, .word "twice", .word "1", .right, .right] 0 2
  exact ⟨h.1 3 (by decide), (h.2.1 7 9 (by decide)).2⟩

end FlatLisp
