import FlatLisp.Proofs.Simulation.Contract
import FlatLisp.Proofs.Simulation.Sample

/-!
# The frame of evaluation

Evaluation in a scope writes to the tables of that scope and of scopes that it makes itself. Closure
bodies run in new scopes, so a call of a closure writes to no scope that there was before. Scopes
only ever gain names, and none moves to another parent.
-/

namespace FlatLisp

variable {E : Type}

/-- What may have become of the world `w₀`: the scopes in `kept` are as they were, and other scopes
have gained names at most. -/
structure World.Frame (kept : ScopeId → Prop) (w₀ w : World E) : Prop where
  size : w₀.scopes.size ≤ w.scopes.size
  kept {t : ScopeId} (ht : t < w₀.scopes.size) (hkept : kept t) : w.scopes[t]? = w₀.scopes[t]?
  grown {t : ScopeId} {before : Scope E} (h : w₀.scopes[t]? = some before) :
    ∃ after, w.scopes[t]? = some after ∧ after.parent = before.parent ∧
      ∀ name, (before.table.find? name).isSome = true → (after.table.find? name).isSome = true

namespace World.Frame

variable {kept : ScopeId → Prop} {w₀ w w' : World E}

/-- Nothing has become of a world. -/
theorem refl (w : World E) : w.Frame kept w where
  size := Nat.le_refl _
  kept _ _ := rfl
  grown h := ⟨_, h, rfl, fun _ => id⟩

/-- Only scopes count. -/
theorem of_scopes_eq (h : w₀.Frame kept w) (hscopes : w'.scopes = w.scopes) : w₀.Frame kept w' where
  size := hscopes ▸ h.size
  kept := hscopes ▸ h.kept
  grown := hscopes ▸ h.grown

/-- A name that is bound in a scope stays bound in it. -/
theorem hasLocal (h : w₀.Frame kept w) {s : ScopeId} {name : String}
    (hname : w₀.hasLocal s name = true) : w.hasLocal s name = true := by
  unfold World.hasLocal at hname ⊢
  cases hbefore : w₀.scopes[s]? with
  | none => simp [hbefore] at hname
  | some before =>
    obtain ⟨after, hafter, -, hnames⟩ := h.grown hbefore
    rw [hbefore] at hname
    rw [hafter]
    exact hnames name hname

/-- Names may be bound in a scope that is not kept. -/
theorem bind (h : w₀.Frame kept w) {s : ScopeId} (hs : kept s → w₀.scopes.size ≤ s) (name : String)
    (v : Value E) : w₀.Frame kept (w.bind s name v) where
  size := by
    rw [World.size_bind]
    exact h.size
  kept := by
    intro t ht hkept
    have hne : s ≠ t := by
      intro heq
      subst heq
      exact absurd (hs hkept) (Nat.not_le.mpr ht)
    rw [World.getElem?_bind, if_neg hne]
    exact h.kept ht hkept
  grown := by
    intro t before hbefore
    obtain ⟨after, hafter, hparent, hnames⟩ := h.grown hbefore
    rw [World.getElem?_bind]
    split
    · rw [hafter, Option.map_some]
      exact ⟨_, rfl, hparent, fun name hname => Table.isSome_find?_insert v (hnames name hname)⟩
    · exact ⟨after, hafter, hparent, hnames⟩

/-- Scopes may be added. -/
theorem pushScope (h : w₀.Frame kept w) (scope : Scope E) :
    w₀.Frame kept (w.pushScope scope).1 := by
  have hold : ∀ {t}, t < w₀.scopes.size → (w.pushScope scope).1.scopes[t]? = w.scopes[t]? := by
    intro t ht
    rw [World.getElem?_pushScope, if_neg (Nat.ne_of_lt (Nat.lt_of_lt_of_le ht h.size))]
  refine ⟨?_, fun ht hkept => (hold ht).trans (h.kept ht hkept), fun hbefore => ?_⟩
  · exact Nat.le_trans h.size (by simp [World.pushScope])
  · rw [hold (Array.getElem?_eq_some_iff.mp hbefore).1]
    exact h.grown hbefore

end World.Frame

/-- The contract to leave the scopes in `kept` as they were in `w₀`. -/
def frameContract (kept : ScopeId → Prop) (w₀ : World E) : Contract E where
  Admits _ := True
  Knows _ := True
  Uses s := kept s → w₀.scopes.size ≤ s
  Holds := w₀.Frame kept
  Fails _ := w₀.Frame kept

namespace frameContract

variable (kept : ScopeId → Prop) (w₀ : World E)

/-- Any program and any object will do. -/
theorem isPermissive : (frameContract kept w₀).IsPermissive :=
  ⟨fun _ => trivial, fun _ => trivial⟩

/-- The primitives of evaluation leave other scopes alone. -/
theorem isKept : (frameContract kept w₀).IsKept where
  knows_plain _ _ := trivial
  knows_snapshot _ _ _ := trivial
  admits_split _ _ := trivial
  admits_substitute _ _ := trivial
  admits_parse _ := trivial
  allows_entry _ _ _ := (isPermissive kept w₀).isExact.values_iff.mpr rfl
  callable_host _ _ _ := (isPermissive kept w₀).isExact.functions_iff.mpr rfl
  newId hw := hw.of_scopes_eq rfl
  print _ hw := hw.of_scopes_eq rfl
  request _ hw := hw.of_scopes_eq rfl
  bind name v hs _ hw := hw.bind hs name v
  child hw _ := ⟨fun _ => hw.size, hw.pushScope _⟩
  setDepth _ _ hw := hw.of_scopes_eq rfl
  fails _ hw := hw
  fails_setDepth _ _ hw := hw.of_scopes_eq rfl
  fails_malformed _ _ _ hw := hw
  fails_parse hw _ _ _ := hw.of_scopes_eq rfl

variable {kept w₀}

/-- However a run ends that keeps to the contract, the world is framed. -/
theorem frame_of_outcomes {α β : Type} {A : α → β → Prop} {o : Except Error α × World E}
    {o' : Except Error β × World E}
    (h : (frameContract kept w₀).toCorrespondence.Outcomes A o o') : w₀.Frame kept o.2 := by
  cases h with
  | ok _ hw => exact hw.2
  | failed h => exact h.2.2
  | cut _ h => exact h.elim

end frameContract

variable [Embedding E]

/-- Functions of the embedder write to no scope but the one that they are called from and new ones,
unless what they evaluate or call does. What they make of a failure is their own affair. -/
def Embedding.KeepsFrames (E : Type) [Embedding E] : Prop :=
  ∀ (kept : ScopeId → Prop) (w₀ : World E),
    (frameContract.isKept kept w₀).simulation.RespectedByEmbedding

/-- Functions of the embedder that act through their caller leave other scopes alone. -/
theorem Embedding.ActsThroughCaller.keepsFrames (hE : ActsThroughCaller E) : KeepsFrames E :=
  fun kept w₀ => hE _ ((frameContract.isKept kept w₀).isExact (frameContract.isPermissive kept w₀)
    fun _ _ hw => hw)

/-- Evaluation leaves the scopes alone that it does not take place in. -/
theorem frame_evaluate (hE : Embedding.KeepsFrames E) (w : World E) (s : ScopeId)
    (p : Program) : w.Frame (· ≠ s) (evaluate s p w).2 := by
  have huses : (frameContract (· ≠ s) w).Uses s := fun hne => absurd rfl hne
  exact frameContract.frame_of_outcomes ((frameContract.isKept (· ≠ s) w).evaluateWithin
    (hE _ w) w.budget (World.Frame.refl w) huses trivial)

/-- A call of a closure leaves all scopes alone. -/
theorem frame_call_closure (hE : Embedding.KeepsFrames E) (w : World E) (id : Nat)
    (label : Option String) (formals : List String) (body : Program) (scope s : ScopeId)
    (operands : List (Operand E)) :
    w.Frame (fun _ => True)
      (Function.call ⟨id, label, .closure formals body scope⟩ s operands w).2 := by
  exact frameContract.frame_of_outcomes ((frameContract.isKept _ w).call_closure
    (hE _ w) (World.Frame.refl w) id label formals trivial scope s
    ((frameContract.isPermissive _ w).isExact.operands_refl operands))

/-- Evaluation in a scope, however it ends, leaves every other scope that there was before as it was;
the scope itself stays where it is and loses no name. A call of a closure leaves every scope as it
was, also the scope that the closure was defined in and the one that it is called from. All that is
asked of functions of the embedder is that they keep to this themselves, as those do that act through
their caller (`Embedding.ActsThroughCaller.keepsFrames`). -/
theorem evaluate_frame (hE : Embedding.KeepsFrames E) (w : World E) :
    (∀ (s : ScopeId) (p : Program), s < w.scopes.size →
      (∀ t, t < w.scopes.size → t ≠ s → (evaluate s p w).2.scopes[t]? = w.scopes[t]?) ∧
      (evaluate s p w).2.parent? s = w.parent? s ∧
      ∀ name, w.hasLocal s name = true → (evaluate s p w).2.hasLocal s name = true) ∧
    ∀ (id : Nat) (label : Option String) (formals : List String) (body : Program)
      (scope s : ScopeId) (operands : List (Operand E)) (t : ScopeId), t < w.scopes.size →
      (Function.call ⟨id, label, .closure formals body scope⟩ s operands w).2.scopes[t]? =
        w.scopes[t]? := by
  constructor
  · intro s p hs
    have hframe := frame_evaluate hE w s p
    have hbefore : w.scopes[s]? = some (w.scopes[s]) := Array.getElem?_eq_getElem hs
    obtain ⟨after, hafter, hparent, hnames⟩ := hframe.grown hbefore
    refine ⟨fun t ht hne => hframe.kept ht hne, ?_, fun name hname => ?_⟩
    · unfold World.parent?
      rw [hafter, hbefore]
      exact hparent
    · unfold World.hasLocal at hname ⊢
      rw [hbefore] at hname
      rw [hafter]
      exact hnames name hname
  · intro id label formals body scope s operands t ht
    exact (frame_call_closure hE w id label formals body scope s operands).kept ht trivial

/-- A world with a root that binds `x`, and a scope below it that can bind `x` by way of a function
of the embedder. -/
def nestedScopes : World Embed.Sample where
  scopes := #[⟨[("x", .int 1)], none, 0⟩,
    ⟨[("set", .function ⟨0, none, .embedded (.typed .bindHere)⟩), ("name", .symbol "x")], some 0, 0⟩]
  sessions := #[⟨.empty, .disabled, false, 4, 0, false⟩]
  nextId := 1
  printed := ""
  requested := []

/-- Binding `x` in the lower scope does not reach the root, and takes no name away. -/
theorem evaluate_frame_nestedScopes :
    let p : Program := [.left, .word "set", .word "name", .word "2", .right]
    (evaluate 1 p nestedScopes).2.scopes[0]? = nestedScopes.scopes[0]? ∧
      (evaluate 1 p nestedScopes).2.hasLocal 1 "name" = true := by
  have hE := Embed.isParametric_sample.actsThroughCaller.keepsFrames
  have h := (evaluate_frame hE nestedScopes).1 1
    [.left, .word "set", .word "name", .word "2", .right] (by decide)
  exact ⟨h.1 0 (by decide) (by decide), h.2.2 "name" (by decide)⟩

end FlatLisp
