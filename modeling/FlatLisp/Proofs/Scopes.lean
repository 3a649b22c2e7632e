import FlatLisp.World.Basic

/-!
# Scopes and sessions of a world

Which scope a closure captures, what binding a name and adding a scope do to the scopes that exist,
where the values come from that a scope has in sight, and what nesting does to sessions.
-/

namespace FlatLisp

/-- The scope that a function was defined in, if it is a closure. -/
def Function.scope? {E : Type} (f : Function E) : Option ScopeId :=
  match f.body with
  | .closure _ _ s => some s
  | _ => none

/-- The scope that a value captures, if it is a closure. -/
def Value.captured? {E : Type} : Value E → Option ScopeId
  | .function f => f.scope?
  | _ => none

namespace Table

variable {V : Type} {t : Table V} {name : String}

/-- Binding a name leaves every other name as it is. -/
theorem find?_insert_of_ne (t : Table V) {name other : String} (v : V) (h : other ≠ name) :
    (t.insert name v).find? other = t.find? other := by
  unfold find? insert
  rw [List.lookup_cons, beq_false_of_ne h]
  induction t with
  | nil => rfl
  | cons entry t ih =>
    obtain ⟨key, value⟩ := entry
    by_cases hkey : key = name
    · subst hkey
      simpa [List.filter_cons, List.lookup_cons, beq_false_of_ne h] using ih
    · by_cases hother : other = key
      · simp [hkey, hother]
      · simpa [List.filter_cons, hkey, List.lookup_cons, beq_false_of_ne hother] using ih

/-- Binding a name takes no name away. -/
theorem isSome_find?_insert {other : String} (v : V) (h : (t.find? other).isSome = true) :
    ((t.insert name v).find? other).isSome = true := by
  by_cases hname : other = name
  · rw [hname, find?_insert_self]
    rfl
  · rw [find?_insert_of_ne t v hname, h]

/-- Bindings after binding a name are the new one and old ones. -/
theorem mem_insert {entry : String × V} {v : V} (h : entry ∈ t.insert name v) :
    entry = (name, v) ∨ entry ∈ t := by
  rcases List.mem_cons.mp h with hnew | hold
  · exact .inl hnew
  · exact .inr (List.mem_filter.mp hold).1

/-- A value that is found is bound. -/
theorem mem_of_find? {v : V} (h : t.find? name = some v) : (name, v) ∈ t := by
  obtain ⟨before, after, rfl, -⟩ := List.lookup_eq_some_iff.mp h
  exact List.mem_append_right before List.mem_cons_self

end Table

/-- Whether a host has a function under some path. -/
def Host.Offers (host : Host E) (f : Function E) : Prop :=
  ∃ path, host.resolve? path = some f

/-- A host without functions offers none. -/
theorem Host.not_offers_empty (f : Function E) : ¬(Host.empty : Host E).Offers f := by
  rintro ⟨path, hf⟩
  cases hf

/-- What the host of a registry offers is in the registry. -/
theorem Registry.exists_mem_of_offers {r : Registry E} {f : Function E} (h : r.host.Offers f) :
    ∃ entry ∈ r, entry.2 = f := by
  obtain ⟨path, hf⟩ := h
  obtain ⟨before, after, rfl, -⟩ := List.lookup_eq_some_iff.mp hf
  exact ⟨_, List.mem_append_right before List.mem_cons_self, rfl⟩

namespace World

variable {E : Type} {w : World E} {s t : ScopeId} {name : String}

/-- Binding a name changes the table of one scope. -/
theorem getElem?_bind (w : World E) (s t : ScopeId) (name : String) (v : Value E) :
    (w.bind s name v).scopes[t]? =
      if s = t then (w.scopes[t]?).map fun scope => { scope with table := scope.table.insert name v }
      else w.scopes[t]? := by
  unfold bind
  rw [Array.getElem?_modify]

/-- Binding a name adds no scope. -/
theorem size_bind (w : World E) (s : ScopeId) (name : String) (v : Value E) :
    (w.bind s name v).scopes.size = w.scopes.size :=
  Array.size_modify

/-- A new scope has the first unused place, and others stay where they are. -/
theorem getElem?_pushScope (w : World E) (scope : Scope E) (t : ScopeId) :
    (w.pushScope scope).1.scopes[t]? = if t = w.scopes.size then some scope else w.scopes[t]? :=
  Array.getElem?_push

/-- A scope stays where it is when there is a new one. -/
theorem getElem?_pushScope_of_some (w : World E) (scope : Scope E) {found : Scope E}
    (h : w.scopes[t]? = some found) : (w.pushScope scope).1.scopes[t]? = some found := by
  have hlt := (Array.getElem?_eq_some_iff.mp h).1
  rw [getElem?_pushScope, if_neg (Nat.ne_of_lt hlt), h]

/-- Tables in sight are tables of scopes. -/
theorem exists_scope_of_mem_chain {fuel : Nat} {table : Table (Value E)}
    (h : table ∈ w.chain fuel s) :
    ∃ (t : ScopeId) (scope : Scope E), w.scopes[t]? = some scope ∧ scope.table = table := by
  induction fuel generalizing s with
  | zero => cases h
  | succ fuel ih =>
    unfold chain at h
    cases hscope : w.scopes[s]? with
    | none => simp [hscope] at h
    | some scope =>
      cases hparent : scope.parent with
      | none =>
        simp only [hscope, hparent, List.mem_singleton] at h
        exact ⟨s, scope, hscope, h.symm⟩
      | some parent =>
        simp only [hscope, hparent, List.mem_cons] at h
        rcases h with rfl | h
        · exact ⟨s, scope, hscope, rfl⟩
        · exact ih h

/-- What is in sight depends on scopes alone. -/
theorem visible_of_scopes_eq {w' : World E} (h : w'.scopes = w.scopes) (s : ScopeId) :
    w'.visible s = w.visible s := by
  have hchain : ∀ fuel s, w'.chain fuel s = w.chain fuel s := by
    intro fuel
    induction fuel with
    | zero => exact fun _ => rfl
    | succ fuel ih =>
      intro s
      simp only [chain, h, ih]
  unfold visible
  rw [h, hchain]

/-- A value that is found is bound in some scope. -/
theorem exists_scope_of_find? {v : Value E} (h : w.find? s name = some v) :
    ∃ (t : ScopeId) (scope : Scope E), w.scopes[t]? = some scope ∧ (name, v) ∈ scope.table := by
  obtain ⟨table, htable, hfound⟩ := List.exists_of_findSome?_eq_some h
  obtain ⟨t, scope, hscope, rfl⟩ := exists_scope_of_mem_chain htable
  exact ⟨t, scope, hscope, Table.mem_of_find? hfound⟩

/-- Sorting an entry in brings in no other entry. -/
theorem mem_insertNew {entry other : String × Value E} {entries : List (String × Value E)}
    (h : other ∈ insertNew entry entries) : other = entry ∨ other ∈ entries := by
  induction entries with
  | nil => exact .inl (List.mem_singleton.mp h)
  | cons head rest ih =>
    unfold insertNew at h
    split at h
    · exact List.mem_cons.mp h
    · split at h
      · exact .inr h
      · rcases List.mem_cons.mp h with rfl | h
        · exact .inr List.mem_cons_self
        · exact (ih h).imp_right (List.mem_cons_of_mem head)

/-- Sorting entries in brings in no others. -/
theorem mem_foldl_insertNew {entry : String × Value E} {entries sorted : List (String × Value E)}
    (h : entry ∈ entries.foldl (fun sorted e => insertNew e sorted) sorted) :
    entry ∈ sorted ∨ entry ∈ entries := by
  induction entries generalizing sorted with
  | nil => exact .inl h
  | cons head rest ih =>
    rcases ih h with h | h
    · rcases mem_insertNew h with rfl | h
      · exact .inr List.mem_cons_self
      · exact .inl h
    · exact .inr (List.mem_cons_of_mem head h)

/-- A binding in sight is a binding of some scope. -/
theorem exists_scope_of_mem_bindings {entry : String × Value E} (h : entry ∈ w.bindings s) :
    ∃ (t : ScopeId) (scope : Scope E), w.scopes[t]? = some scope ∧ entry ∈ scope.table := by
  rcases mem_foldl_insertNew h with h | h
  · cases h
  · obtain ⟨table, htable, hentry⟩ := List.mem_flatten.mp h
    obtain ⟨t, scope, hscope, rfl⟩ := exists_scope_of_mem_chain htable
    exact ⟨t, scope, hscope, hentry⟩

/-- Nesting changes the depth of one session. -/
theorem getElem?_setDepth (w : World E) (i depth j : Nat) :
    (w.setDepth i depth).sessions[j]? =
      if i = j then (w.sessions[j]?).map fun session => { session with depth := depth }
      else w.sessions[j]? := by
  unfold setDepth
  rw [Array.getElem?_modify]

/-- Sessions are as before but for their depth. -/
theorem exists_of_mem_setDepth {i depth : Nat} {session : Session E}
    (h : session ∈ (w.setDepth i depth).sessions) :
    ∃ before ∈ w.sessions, session = { before with depth := session.depth } := by
  obtain ⟨j, hj⟩ := Array.mem_iff_getElem?.mp h
  rw [getElem?_setDepth] at hj
  split at hj
  · obtain ⟨before, hbefore, rfl⟩ := Option.map_eq_some_iff.mp hj
    exact ⟨before, Array.mem_of_getElem? hbefore, rfl⟩
  · exact ⟨session, Array.mem_of_getElem? hj, rfl⟩

/-- Two changes at one place are one change. -/
theorem modify_modify {V : Type} (xs : Array V) (i : Nat) (f g : V → V) :
    (xs.modify i f).modify i g = xs.modify i (g ∘ f) := by
  apply Array.ext_getElem?
  intro j
  simp only [Array.getElem?_modify]
  split
  · rw [Option.map_map]
  · rfl

/-- Changes at two places can be made in any order. -/
theorem modify_comm {V : Type} (xs : Array V) {i j : Nat} (h : i ≠ j) (f g : V → V) :
    (xs.modify i f).modify j g = (xs.modify j g).modify i f := by
  apply Array.ext_getElem?
  intro k
  simp only [Array.getElem?_modify]
  by_cases hj : j = k
  · subst hj
    simp only [h, ↓reduceIte]
  · simp only [hj, ↓reduceIte]

/-- Of two depths the latter counts. -/
theorem setDepth_setDepth (w : World E) (i depth depth' : Nat) :
    (w.setDepth i depth).setDepth i depth' = w.setDepth i depth' := by
  simp only [setDepth, modify_modify]
  rfl

/-- A session is as deep as it is. -/
theorem setDepth_self {i : Nat} {session : Session E} (h : w.sessions[i]? = some session) :
    w.setDepth i session.depth = w := by
  have hsessions : (w.setDepth i session.depth).sessions = w.sessions := by
    apply Array.ext_getElem?
    intro j
    rw [getElem?_setDepth]
    split
    · next heq =>
      subst heq
      rw [h]
      rfl
    · rfl
  exact congrArg (fun sessions => { w with sessions := sessions }) hsessions

/-- Setting a depth back restores the sessions. -/
theorem sessions_setDepth_back {v : World E} {i inner : Nat} {session : Session E}
    (hsession : v.sessions[i]? = some session) (h : w.sessions = (v.setDepth i inner).sessions) :
    (w.setDepth i session.depth).sessions = v.sessions :=
  calc (w.setDepth i session.depth).sessions
      = ((v.setDepth i inner).setDepth i session.depth).sessions := by simp only [setDepth, h]
    _ = v.sessions := by rw [setDepth_setDepth, setDepth_self hsession]

/-- The session of a scope that exists. -/
theorem sessionOf?_eq_some {scope : Scope E} {session : Session E}
    (hscope : w.scopes[s]? = some scope) (hsession : w.sessions[scope.session]? = some session) :
    w.sessionOf? s = some session := by
  rw [sessionOf?, hscope, Option.bind_some, hsession]

/-- A host function that is found is offered by some session. -/
theorem exists_host_of_resolve? {f : Function E}
    (h : ((w.sessionOf? s).bind fun session => session.host.resolve? name) = some f) :
    ∃ session ∈ w.sessions, session.host.Offers f := by
  obtain ⟨session, hsession, hf⟩ := Option.bind_eq_some_iff.mp h
  obtain ⟨scope, -, hmem⟩ := Option.bind_eq_some_iff.mp hsession
  exact ⟨session, Array.mem_of_getElem? hmem, name, hf⟩

/-- One more evaluation takes one from the budget. -/
theorem budget_setDepth {i : Nat} {session : Session E} (h : w.sessions[i]? = some session)
    (hdepth : session.depth < session.maxDepth) :
    (w.setDepth i (session.depth + 1)).budget + 1 = w.budget := by
  obtain ⟨scopes, ⟨sessions⟩, nextId, printed, requested⟩ := w
  simp only [budget, setDepth, ← Array.foldr_toList, Array.toList_modify]
  rw [List.getElem?_toArray] at h
  induction sessions generalizing i with
  | nil => cases h
  | cons first sessions ih =>
    cases i with
    | zero =>
      cases h
      simp only [List.modify_zero_cons, List.foldr_cons]
      omega
    | succ i =>
      have hrest := ih h
      simp only [List.modify_succ_cons, List.foldr_cons]
      omega

/-- A session that allows one more evaluation leaves fuel for it. -/
theorem budget_pos {session : Session E} (h : w.sessionOf? s = some session)
    (hdepth : session.depth < session.maxDepth) : 0 < w.budget := by
  obtain ⟨scope, -, hsession⟩ := Option.bind_eq_some_iff.mp h
  have hbudget := budget_setDepth hsession hdepth
  omega

end World

namespace EvalM

variable {E α : Type} {s : ScopeId} {w : World E} {scope : Scope E} {session : Session E}

/-- A scope has a session that has not ended, or it is lost. -/
theorem session_cases (s : ScopeId) (w : World E) :
    (∃ session, w.sessionOf? s = some session ∧ EvalM.session s w = (.ok session, w)) ∨
      EvalM.session s w = (.error (.domain .lostScope), w) := by
  unfold EvalM.session
  cases w.sessionOf? s with
  | none => exact .inr rfl
  | some session =>
    by_cases hended : session.ended = true
    · simp only [hended, ↓reduceIte]
      exact .inr trivial
    · simp only [hended, Bool.false_eq_true, ↓reduceIte]
      exact .inl ⟨session, rfl, rfl⟩

/-- Loading a source notes the request, whatever comes of it. -/
theorem load_eq {loader : Loader} {path : String} {answer : Except Error String}
    (h : loader.load path = answer) (w : World E) :
    EvalM.load loader path w = (answer, { w with requested := path :: w.requested }) := by
  rw [EvalM.load, h]

/-- What a scope that is lost makes of a computation. -/
theorem nested_of_lost (act : EvalM E α) (h : w.sessionOf? s = none) :
    nested s act w = (.error (.domain .lostScope), w) := by
  unfold World.sessionOf? at h
  unfold nested
  cases hscope : w.scopes[s]? with
  | none => rfl
  | some scope =>
    rw [hscope, Option.bind_some] at h
    simp only [h]

/-- What a session that allows no evaluation makes of a computation. -/
theorem nested_of_full (act : EvalM E α) (h : w.sessionOf? s = some session)
    (hdepth : ¬session.depth < session.maxDepth) :
    nested s act w = (.error (.stackExhausted session.maxDepth), w) := by
  obtain ⟨scope, hscope, hsession⟩ := Option.bind_eq_some_iff.mp h
  unfold nested
  simp only [hscope, hsession, hdepth, ↓reduceIte]

/-- What a session that allows an evaluation makes of a computation. -/
theorem nested_of_free (act : EvalM E α) (hscope : w.scopes[s]? = some scope)
    (hsession : w.sessions[scope.session]? = some session)
    (hdepth : session.depth < session.maxDepth) :
    nested s act w =
      ((act (w.setDepth scope.session (session.depth + 1))).1,
        (act (w.setDepth scope.session (session.depth + 1))).2.setDepth scope.session
          session.depth) := by
  unfold nested
  simp only [hscope, hsession, hdepth, ↓reduceIte]
  rfl

/-- What becomes of a computation that does nothing but fail, one evaluation deeper. -/
theorem nested_of_fails {act : EvalM E α} {e : Error} (hact : ∀ w, act w = (.error e, w))
    (h : w.sessionOf? s = some session) (hdepth : session.depth < session.maxDepth) :
    nested s act w = (.error e, w) := by
  obtain ⟨scope, hscope, hsession⟩ := Option.bind_eq_some_iff.mp h
  rw [nested_of_free act hscope hsession hdepth, hact, World.setDepth_setDepth,
    World.setDepth_self hsession]

end EvalM

end FlatLisp
