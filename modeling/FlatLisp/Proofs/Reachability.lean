import FlatLisp.Proofs.Frame
import FlatLisp.Proofs.Registry
import FlatLisp.Proofs.Simulation.Renaming

/-!
# What evaluation depends on

Names are looked up through the parents of a scope, and a call of a closure goes to the scope that it
was defined in. So evaluation sees no table but those of scopes that can be reached in these ways,
and of scopes that it makes itself. Two runs that start with the same tables there stay the same
there, whatever other tables hold.
-/

namespace FlatLisp

open Correspondence

variable {E : Type}

namespace World

/-- Scopes that can be reached from a scope, by way of parents and of closures that are bound on the
way. -/
inductive Reaches (w : World E) (s : ScopeId) : ScopeId → Prop
  | refl : Reaches w s s
  | parent {t u : ScopeId} {scope : Scope E} (h : Reaches w s t) (hscope : w.scopes[t]? = some scope)
      (hparent : scope.parent = some u) : Reaches w s u
  | captured {t u : ScopeId} {scope : Scope E} {entry : String × Value E} (h : Reaches w s t)
      (hscope : w.scopes[t]? = some scope) (hentry : entry ∈ scope.table)
      (hcaptured : entry.2.captured? = some u) : Reaches w s u

/-- Worlds that differ only in scopes that cannot be reached from `s`. Host functions are the same in
both, also in what can be reached from them. -/
structure AgreesFrom (s : ScopeId) (w w' : World E) : Prop where
  size : w.scopes.size = w'.scopes.size
  reached {t : ScopeId} (h : w.Reaches s t) : w.scopes[t]? = w'.scopes[t]?
  sessions : w.sessions = w'.sessions
  hosts {session : Session E} (h : session ∈ w.sessions) {f : Function E}
    (hf : session.host.Offers f) {t u : ScopeId} (ht : f.scope? = some t) (hu : w.Reaches t u) :
    w.scopes[u]? = w'.scopes[u]?
  nextId : w.nextId = w'.nextId
  printed : w.printed = w'.printed
  requested : w.requested = w'.requested

/-- Where hosts offer no closures, nothing can be reached from them, and worlds agree if no scope that
can be reached from `s` tells them apart. -/
theorem AgreesFrom.of_hasNoClosures {s : ScopeId} {w w' : World E}
    (hhosts : ∀ session ∈ w.sessions, session.host.HasNoClosures)
    (hsize : w.scopes.size = w'.scopes.size)
    (hreached : ∀ t, w.Reaches s t → w.scopes[t]? = w'.scopes[t]?)
    (hsessions : w.sessions = w'.sessions) (hnextId : w.nextId = w'.nextId)
    (hprinted : w.printed = w'.printed) (hrequested : w.requested = w'.requested) :
    w.AgreesFrom s w' where
  size := hsize
  reached := hreached _
  sessions := hsessions
  hosts hsession f hf t u ht := by
    rw [hhosts _ hsession f hf] at ht
    cases ht
  nextId := hnextId
  printed := hprinted
  requested := hrequested

/-- Scopes that evaluation in `s` may come to: those that can be reached from `s` or from a host
function, and those that do not exist yet. -/
inductive Near (w : World E) (s t : ScopeId) : Prop
  | reached (h : w.Reaches s t)
  | host {session : Session E} {f : Function E} {u : ScopeId} (hsession : session ∈ w.sessions)
      (hf : session.host.Offers f) (hu : f.scope? = some u) (h : w.Reaches u t)
  | new (h : w.scopes.size ≤ t)

namespace Near

variable {w : World E} {s t u : ScopeId} {scope : Scope E}

/-- The parent of a scope that evaluation may come to. -/
theorem parent (h : w.Near s t) (hscope : w.scopes[t]? = some scope)
    (hparent : scope.parent = some u) : w.Near s u := by
  cases h with
  | reached h => exact .reached (h.parent hscope hparent)
  | host hsession hf hu h => exact .host hsession hf hu (h.parent hscope hparent)
  | new h => exact absurd (Array.getElem?_eq_some_iff.mp hscope).1 (Nat.not_lt.mpr h)

/-- A scope captured in the table of one that evaluation may come to. -/
theorem captured (h : w.Near s t) (hscope : w.scopes[t]? = some scope) {entry : String × Value E}
    (hentry : entry ∈ scope.table) (hcaptured : entry.2.captured? = some u) : w.Near s u := by
  cases h with
  | reached h => exact .reached (h.captured hscope hentry hcaptured)
  | host hsession hf hu h => exact .host hsession hf hu (h.captured hscope hentry hcaptured)
  | new h => exact absurd (Array.getElem?_eq_some_iff.mp hscope).1 (Nat.not_lt.mpr h)

/-- Worlds that differ only in scopes that cannot be reached are the same where evaluation may come
to. -/
theorem getElem?_eq {w' : World E} (hnear : w.Near s t) (h : w.AgreesFrom s w') :
    w.scopes[t]? = w'.scopes[t]? := by
  cases hnear with
  | reached ht => exact h.reached ht
  | host hsession hf hu ht => exact h.hosts hsession hf hu ht
  | new ht => rw [Array.getElem?_eq_none ht, Array.getElem?_eq_none (h.size ▸ ht)]

end Near

end World

/-! ## Runs that come to the same scopes -/

/-- Runs on the same data that come to scopes near `s` only. -/
def nearRenaming (w : World E) (s : ScopeId) : Renaming E where
  Ids := Eq
  Captures t t' := t = t' ∧ w.Near s t
  Objects := Eq

namespace nearRenaming

variable {w w' : World E} {s : ScopeId}

/-- Data are the same in both runs. -/
theorem isFaithful : (nearRenaming w s).data.IsFaithful :=
  ⟨id, And.left, id⟩

/-- Bindings are the same in both runs. -/
theorem eq_of_bindings {entries entries' : List (String × Value E)}
    (h : List.Forall₂ (nearRenaming w s).data.Bindings entries entries') : entries = entries' := by
  have heq : List.Forall₂ Eq entries entries' :=
    h.imp fun _ _ hentry => Prod.ext hentry.1 (isFaithful.eq_of_values hentry.2)
  exact List.forall₂_eq_eq_eq ▸ heq

/-- Runs on the same data respect their numbers. -/
theorem isLawful : (nearRenaming w s).IsLawful where
  ids_unique ha hb := by
    cases ha
    cases hb
    exact Iff.rfl
  captures_unique ha hb := by
    rw [ha.1, hb.1]
  objects_ids ho := congrArg _ ho
  objects_text ho := congrArg _ ho
  objects_plain ha text := congrArg (ObjectOf.mk · text none) ha
  objects_snapshot ha he := by
    cases ha
    rw [eq_of_bindings he]
    rfl

/-- A function is the same in both runs if its scope is near. -/
theorem functions_refl {f : Function E} (h : ∀ t, f.scope? = some t → w.Near s t) :
    (nearRenaming w s).data.Functions f f := by
  obtain ⟨id, label, body⟩ := f
  refine ⟨rfl, rfl, ?_⟩
  cases body with
  | form f => exact .form f
  | builtin b => exact .builtin b
  | host f => exact .host f
  | closure formals p t => exact .closure formals trivial ⟨rfl, h t rfl⟩
  | template formals p => exact .template formals trivial
  | embedded e => exact .embedded e

/-- A value is the same in both runs if the scope that it captures is near. -/
theorem values_refl {v : Value E} (h : ∀ t, v.captured? = some t → w.Near s t) :
    (nearRenaming w s).data.Values v v := by
  cases v with
  | bool b => exact .bool b
  | int n => exact .int n
  | float x => exact .float x
  | complex z => exact .complex z
  | symbol text => exact .symbol text
  | empty => exact .empty
  | function f => exact .function (functions_refl h)
  | object o => exact .object rfl

/-- A scope near `s` leads to nothing but scopes near `s`. -/
theorem scopes_refl {t : ScopeId} {scope : Scope E} (ht : w.Near s t)
    (hscope : w.scopes[t]? = some scope) : (nearRenaming w s).Scopes scope scope where
  tables := List.forall₂_same.mpr fun _ hentry =>
    ⟨rfl, values_refl fun _ hcaptured => ht.captured hscope hentry hcaptured⟩
  parents := by
    cases hparent : scope.parent with
    | none => exact .none
    | some u => exact .some ⟨rfl, ht.parent hscope hparent⟩
  session := rfl

/-- Worlds that differ only in scopes that cannot be reached are alike. -/
theorem alike (h : w.AgreesFrom s w') : (nearRenaming w s).Alike w w' w w' where
  scopes := by
    intro t t' ht
    obtain ⟨rfl, hnear⟩ := ht
    rw [← hnear.getElem?_eq h]
    cases hscope : w.scopes[t]? with
    | none => exact .none
    | some scope => exact .some (scopes_refl hnear hscope)
  nextScopes k := ⟨by rw [h.size], .new (Nat.le_add_right _ k)⟩
  nextIds k := by
    rw [h.nextId]
    rfl
  sessions := h.sessions
  hosts hsession _ hf := functions_refl fun _ ht => .host hsession hf ht .refl
  printed := ⟨"", by rw [String.append_empty], by rw [String.append_empty]⟩
  requested := ⟨[], rfl, rfl⟩
  sight := .inl h.size

/-- Corresponding scopes of worlds that are alike are the same. -/
theorem getElem?_eq {v v' : World E} (h : (nearRenaming w s).Alike w w' v v') {t : ScopeId}
    (ht : w.Near s t) : v.scopes[t]? = v'.scopes[t]? := by
  have hcaptures : (nearRenaming w s).Captures t t := ⟨rfl, ht⟩
  have hscopes := h.scopes hcaptures
  generalize v.scopes[t]? = found, v'.scopes[t]? = found' at hscopes ⊢
  cases hscopes with
  | none => rfl
  | @some scope scope' hscope =>
    obtain ⟨table, parent, session⟩ := scope
    obtain ⟨table', parent', session'⟩ := scope'
    obtain ⟨htables, hparents, hsession⟩ := hscope
    have hparent : parent = parent' := by
      cases hparents with
      | none => rfl
      | some hp => rw [hp.1]
    cases eq_of_bindings htables
    cases hparent
    cases hsession
    rfl

/-- What was printed and what was asked for are the same if they were so at the start. -/
theorem traces_eq {v v' : World E} (h : (nearRenaming w s).Alike w w' v v')
    (hstart : w.AgreesFrom s w') : v.printed = v'.printed ∧ v.requested = v'.requested := by
  obtain ⟨text, hprinted, hprinted'⟩ := h.printed
  obtain ⟨paths, hrequested, hrequested'⟩ := h.requested
  exact ⟨by rw [hprinted, hprinted', hstart.printed],
    by rw [hrequested, hrequested', hstart.requested]⟩

/-- Evaluations end in the same way, in worlds that are alike. -/
theorem evaluate_eq [Embedding E] (hE : Embedding.IsParametric E) (h : w.AgreesFrom s w')
    (p : Program) : (evaluate s p w).1 = (evaluate s p w').1 ∧
      (nearRenaming w s).Alike w w' (evaluate s p w).2 (evaluate s p w').2 := by
  have houtcome := Renaming.outcomes_evaluate isLawful (hE _) (alike h) ⟨rfl, .reached .refl⟩ p
  generalize evaluate s p w = o, evaluate s p w' = o' at houtcome ⊢
  cases houtcome with
  | ok hv hw =>
    have heq := isFaithful.eq_of_values (Renaming.refines_data.values hv)
    exact ⟨congrArg Except.ok heq, hw⟩
  | failed he => exact ⟨congrArg Except.error he.1, he.2⟩
  | cut _ hcut => exact hcut.elim

end nearRenaming

variable [Embedding E]

/-- Evaluation in `s` depends on nothing but the scopes that can be reached from `s`. In worlds that
differ only in other scopes it ends in the same way, prints the same and asks for the same sources,
and it leaves the same behind in scopes that can be reached or are new. Other scopes stay as they are
in their own world. -/
theorem evaluate_reachable (hE : Embedding.IsParametric E) {w w' : World E} {s : ScopeId}
    (h : w.AgreesFrom s w') (p : Program) :
    (evaluate s p w).1 = (evaluate s p w').1 ∧
    (evaluate s p w).2.printed = (evaluate s p w').2.printed ∧
    (evaluate s p w).2.requested = (evaluate s p w').2.requested ∧
    (∀ t, w.Reaches s t ∨ w.scopes.size ≤ t →
      (evaluate s p w).2.scopes[t]? = (evaluate s p w').2.scopes[t]?) ∧
    ∀ t, t < w.scopes.size → ¬w.Reaches s t →
      (evaluate s p w).2.scopes[t]? = w.scopes[t]? ∧
      (evaluate s p w').2.scopes[t]? = w'.scopes[t]? := by
  obtain ⟨hresult, halike⟩ := nearRenaming.evaluate_eq hE h p
  obtain ⟨hprinted, hrequested⟩ := nearRenaming.traces_eq halike h
  refine ⟨hresult, hprinted, hrequested, fun t ht => ?_, fun t ht hfar => ?_⟩
  · exact nearRenaming.getElem?_eq halike (ht.elim .reached .new)
  · have hne : t ≠ s := by
      intro heq
      rw [heq] at hfar
      exact hfar .refl
    have hframe := frame_evaluate hE.actsThroughCaller.keepsFrames w s p
    have hframe' := frame_evaluate hE.actsThroughCaller.keepsFrames w' s p
    exact ⟨hframe.kept ht hne, hframe'.kept (h.size ▸ ht) hne⟩

/-- The standard host functions. -/
def standardHost : Host Embed.Sample :=
  ((Registry.standard World.empty).1.toOption.getD []).host

/-- None of the standard host functions is a closure. -/
theorem hasNoClosures_standardHost : standardHost.HasNoClosures := by
  obtain ⟨registry, next, hrun, -⟩ :=
    Registry.exists_standard (World.empty : World Embed.Sample)
  rw [standardHost, hrun]
  exact Registry.hasNoClosures_standard hrun

/-- A world with a closure over a scope that can be reached from the root only by way of it, and a
scope with a secret that cannot be reached at all. -/
def secretWorld (secret : Int64) : World Embed.Sample where
  scopes := #[⟨[("f", .function ⟨0, none, .closure [] [.word "x"] 1⟩)], none, 0⟩,
    ⟨[("x", .int 1)], some 0, 0⟩, ⟨[("x", .int secret)], some 0, 0⟩]
  sessions := #[⟨standardHost, .disabled, false, 4, 0, false⟩]
  nextId := 1
  printed := ""
  requested := []

/-- The secret is in a scope that cannot be reached from the root. -/
theorem lt_of_reaches_secretWorld {secret : Int64} {t : ScopeId}
    (h : (secretWorld secret).Reaches 0 t) : t < 2 := by
  induction h with
  | refl => decide
  | @parent t u scope _ hscope hparent ih =>
    match t, ih with
    | 0, _ =>
      cases hscope
      cases hparent
    | 1, _ =>
      cases hscope
      cases hparent
      decide
  | @captured t u scope entry _ hscope hentry hcaptured ih =>
    match t, ih with
    | 0, _ =>
      cases hscope
      cases List.mem_singleton.mp hentry
      cases hcaptured
      decide
    | 1, _ =>
      cases hscope
      cases List.mem_singleton.mp hentry
      cases hcaptured

/-- A call of the closure goes to a scope below the root, but the secret makes no difference to it and
stays where it is. -/
theorem evaluate_reachable_secretWorld :
    let p : Program := [.left, .word "f", .right]
    (secretWorld 2).AgreesFrom 0 (secretWorld 3) ∧
    (evaluate 0 p (secretWorld 2)).1 = (evaluate 0 p (secretWorld 3)).1 ∧
    (evaluate 0 p (secretWorld 2)).2.scopes[1]? = (evaluate 0 p (secretWorld 3)).2.scopes[1]? ∧
    (evaluate 0 p (secretWorld 3)).2.scopes[2]? = (secretWorld 3).scopes[2]? := by
  have hreached : ∀ {t}, (secretWorld 2).Reaches 0 t →
      (secretWorld 2).scopes[t]? = (secretWorld 3).scopes[t]? := by
    intro t ht
    match t, lt_of_reaches_secretWorld ht with
    | 0, _ => rfl
    | 1, _ => rfl
  have hagrees : (secretWorld 2).AgreesFrom 0 (secretWorld 3) := by
    refine .of_hasNoClosures (fun session hsession => ?_) rfl (fun t => hreached) rfl rfl rfl rfl
    rw [Array.mem_singleton.mp hsession]
    exact hasNoClosures_standardHost
  have hchild : (secretWorld 2).Reaches 0 1 := .captured .refl rfl (List.mem_singleton.mpr rfl) rfl
  have hsecret : ¬(secretWorld 2).Reaches 0 2 :=
    fun h => absurd (lt_of_reaches_secretWorld h) (by decide)
  have h := evaluate_reachable Embed.isParametric_sample hagrees [.left, .word "f", .right]
  exact ⟨hagrees, h.1, h.2.2.2.1 1 (.inl hchild), (h.2.2.2.2 2 (by decide) hsecret).2⟩

end FlatLisp
