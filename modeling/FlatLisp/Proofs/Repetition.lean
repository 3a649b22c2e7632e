import FlatLisp.Proofs.Closedness.Evaluation
import FlatLisp.Proofs.Frame

/-!
# Repeated calls

A closure has no memory. A call of it leaves behind new scopes and new numbers, but nothing that was
there before has changed, and nothing that was there before refers to what is new. So a second call
does the same as the first one up to a shift of the numbers, and this shift does not show.

The functions are the special forms, the builtin operations and the standard host functions; there
are none of an embedder.
-/

namespace FlatLisp

open Correspondence

/-! ## Shifted runs -/

/-- Numbers below `n` stay as they are, and others are moved up by `d`. -/
def Shifts (n d a b : Nat) : Prop :=
  a < n ∧ b = a ∨ n ≤ a ∧ b = a + d

/-- A shift moves different numbers to different numbers. -/
theorem Shifts.unique {n d a a' b b' : Nat} (ha : Shifts n d a a') (hb : Shifts n d b b') :
    a = b ↔ a' = b' := by
  unfold Shifts at ha hb
  omega

variable {E : Type}

/-- Runs of which the second one has `d` more scopes and has given `e` more numbers, all of them new
since the world `w`. -/
def shiftRenaming (w : World E) (d e : Nat) : Renaming E where
  Ids := Shifts w.nextId e
  Captures := Shifts w.scopes.size d
  Objects o o' := Shifts w.nextId e o.id o'.id ∧ o.text = o'.text

namespace shiftRenaming

variable {w : World E} {d e : Nat}

/-- A shift does not show in the text of a value. -/
theorem render_eq {v v' : Value E} (h : (shiftRenaming w d e).data.Values v v') :
    v.render = v'.render := by
  cases h with
  | function h => exact congrArg (Option.getD · _) h.label
  | object h => exact h.2
  | _ => rfl

/-- A shift does not show in the text of a snapshot. -/
theorem map_render {entries entries' : List (String × Value E)}
    (h : List.Forall₂ (shiftRenaming w d e).data.Bindings entries entries') :
    entries.map (fun entry => entry.1 ++ ": " ++ entry.2.render) =
      entries'.map (fun entry => entry.1 ++ ": " ++ entry.2.render) := by
  induction h with
  | nil => rfl
  | cons hentry _ ih => simp only [List.map_cons, hentry.1, render_eq hentry.2, ih]

/-- A shift tells numbers apart that are different. -/
theorem isLawful : (shiftRenaming w d e).IsLawful where
  ids_unique := Shifts.unique
  captures_unique := Shifts.unique
  objects_ids := And.left
  objects_text := And.right
  objects_plain ha _ := ⟨ha, rfl⟩
  objects_snapshot ha he := ⟨ha, congrArg ("\n".intercalate ·) (map_render he)⟩

/-- What exists in the world that the shift starts from stays as it is. -/
theorem refines : w.known.Refines (shiftRenaming w d e).data where
  ids ha := .inl ⟨ha.2, ha.1.symm⟩
  captures hs := .inl ⟨hs.2, hs.1.symm⟩
  admits := id
  objects ho := ⟨.inl ⟨ho.2, congrArg _ ho.1.symm⟩, congrArg _ ho.1⟩

/-- Scopes of a closed world stay as they are. -/
theorem scopes_refl (hw : w.IsClosed) {t : ScopeId} {scope : Scope E}
    (hscope : w.scopes[t]? = some scope) : (shiftRenaming w d e).Scopes scope scope where
  tables := List.forall₂_same.mpr fun _ hentry => ⟨rfl, refines.values (hw.tables hscope hentry)⟩
  parents := by
    cases hparent : scope.parent with
    | none => exact .none
    | some parent =>
      have hlt : parent < w.scopes.size :=
        Nat.lt_trans (hw.ordered t parent scope hscope hparent)
          (Array.getElem?_eq_some_iff.mp hscope).1
      exact .some (.inl ⟨hlt, rfl⟩)
  session := rfl

/-- A closed world is like any closed world that it has grown into without a change to its scopes and
sessions. -/
theorem alike {w' : World E} (hw : w.IsClosed) (hw' : w'.IsClosed)
    (hsize : w'.scopes.size = w.scopes.size + d) (hids : w'.nextId = w.nextId + e)
    (hscopes : ∀ t, t < w.scopes.size → w'.scopes[t]? = w.scopes[t]?)
    (hsessions : w'.sessions = w.sessions) : (shiftRenaming w d e).Alike w w' w w' where
  scopes := by
    intro t t' ht
    rcases ht with ⟨hlt, rfl⟩ | ⟨hle, rfl⟩
    · rw [hscopes t' hlt]
      cases hscope : w.scopes[t']? with
      | none => exact .none
      | some scope => exact .some (scopes_refl hw hscope)
    · have hle' : w'.scopes.size ≤ t + d := hsize ▸ Nat.add_le_add_right hle d
      rw [Array.getElem?_eq_none hle, Array.getElem?_eq_none hle']
      exact .none
  nextScopes k := .inr ⟨Nat.le_add_right _ k, by omega⟩
  nextIds k := .inr ⟨Nat.le_add_right _ k, by omega⟩
  sessions := hsessions.symm
  hosts hsession _ hf := refines.functions (hw.hosts hsession hf)
  printed := ⟨"", by rw [String.append_empty], by rw [String.append_empty]⟩
  requested := ⟨[], rfl, rfl⟩
  sight := .inr ⟨hw.ordered, hw'.ordered⟩

end shiftRenaming

/-! ## Worlds that sessions come to -/

/-- Worlds that sessions come to, and what may be done with them: sessions are started, evaluate
programs and read texts; functions that exist are called, values that exist are bound, and scopes are
added; sessions are nested, and end when nothing refers to them. -/
inductive Reached : World Empty → Prop
  | fresh {w : World Empty} (hscopes : w.scopes = #[]) (hsessions : w.sessions = #[]) : Reached w
  /-- A number was given to a function or object of the host. -/
  | numbered {w : World Empty} (h : Reached w) : Reached (EvalM.newId w).2
  | openedBare {w : World Empty} (h : Reached w) {host : Host Empty}
      (hhost : ∀ f, host.Offers f → f.IsKnown w) (loader : Loader) (comments : Bool)
      (maxDepth : Nat) : Reached (openBare host loader comments maxDepth w).2
  | opened {w : World Empty} (h : Reached w) {host : Host Empty}
      (hhost : ∀ f, host.Offers f → f.IsKnown w) (loader : Loader) (comments : Bool)
      (maxDepth : Nat) : Reached (openRoot host loader comments maxDepth w).2
  | evaluated {w : World Empty} (h : Reached w) (s : ScopeId) (p : Program) :
      Reached (evaluate s p w).2
  | interpreted {w : World Empty} (h : Reached w) (s : ScopeId) (text : String) :
      Reached (interpret s text w).2
  | called {w : World Empty} (h : Reached w) (f : Function Empty) {s : ScopeId}
      (hs : s < w.scopes.size) {args : List (Value Empty)} (hargs : ∀ v ∈ args, v.IsKnown w) :
      Reached (f.call s (args.map Operand.value) w).2
  | bound {w : World Empty} (h : Reached w) (s : ScopeId) (name : String) {v : Value Empty}
      (hv : v.IsKnown w) : Reached (w.bind s name v)
  | added {w : World Empty} (h : Reached w) (s : ScopeId) : Reached (EvalM.child s w).2
  | nested {w : World Empty} (h : Reached w) (session depth : Nat) :
      Reached (w.setDepth session depth)
  | ended {w : World Empty} (h : Reached w) (i : Nat) :
      Reached { w with sessions := w.sessions.modify i fun session => { session with ended := true } }

/-- Values that exist make operands that exist. -/
theorem World.knowsAll_of_isKnown {w : World E} {args : List (Value E)}
    (h : ∀ v ∈ args, v.IsKnown w) : w.KnowsAll (args.map Operand.value) := by
  refine List.forall₂_same.mpr fun o ho => ?_
  obtain ⟨v, hv, rfl⟩ := List.mem_map.mp ho
  exact .value (World.knows_iff.mpr (h v hv))

/-- Sessions come to closed worlds. -/
theorem Reached.isClosed {w : World Empty} (h : Reached w) : w.IsClosed := by
  induction h with
  | @fresh w hscopes hsessions =>
    refine ⟨fun hs => ?_, fun hs => ?_, fun s parent scope hs => ?_⟩
    · simp [hscopes] at hs
    · simp [hsessions] at hs
    · simp [hscopes] at hs
  | @numbered w _ ih => exact (keeps_newId w (.refl w) ih).closed
  | openedBare _ hhost loader comments maxDepth ih =>
    exact ih.openBare (fun f hf => World.known_functions_iff.mpr (hhost f hf)) loader comments
      maxDepth
  | opened _ hhost loader comments maxDepth ih =>
    exact ih.openRoot (fun f hf => World.known_functions_iff.mpr (hhost f hf)) loader comments
      maxDepth
  | @evaluated w _ s p ih => exact (keeps_evaluate s p w (.refl w) ih).closed
  | @interpreted w _ s text ih => exact (keeps_interpret s text w (.refl w) ih).closed
  | @called w _ f s hs args hargs ih =>
    exact (keeps_call hs f (World.knowsAll_of_isKnown hargs) w (.refl w) ih).closed
  | bound _ s name hv ih => exact ih.bind s name (World.knows_iff.mpr hv)
  | @added w _ s ih => exact (keeps_child s w (.refl w) ih).closed
  | nested _ session depth ih => exact ih.setDepth session depth
  | @ended w _ i ih =>
    refine ih.of_hosts rfl rfl fun session hsession => ?_
    obtain ⟨j, hj⟩ := Array.mem_iff_getElem?.mp hsession
    rw [Array.getElem?_modify] at hj
    split at hj
    · obtain ⟨before, hbefore, rfl⟩ := Option.map_eq_some_iff.mp hj
      exact ⟨before, Array.mem_of_getElem? hbefore, rfl⟩
    · exact ⟨session, Array.mem_of_getElem? hj, rfl⟩

/-! ## Repeated calls -/

/-- What can be seen of how a computation ended: the failure, or the kind and the text of the value. -/
def observe (result : Except Error (Value E)) : Except Error (Kind × String) :=
  result.map fun v => (v.kind, v.render)

/-- Runs that differ by a shift end in ways that look the same, and print the same. -/
theorem observe_eq_of_outcomes {w w' : World E} {d e : Nat}
    {o o' : Except Error (Value E) × World E}
    (h : ((shiftRenaming w d e).along w w').Outcomes ((shiftRenaming w d e).along w w').Values o o') :
    observe o.1 = observe o'.1 ∧
      ∃ text, o.2.printed = w.printed ++ text ∧ o'.2.printed = w'.printed ++ text := by
  cases h with
  | @ok v v' _ _ hv hw =>
    have hkind := (Renaming.simulation shiftRenaming.isLawful w w').values_kind hv
    have hrender := (Renaming.simulation shiftRenaming.isLawful w w').values_render hv
    exact ⟨congrArg Except.ok (Prod.ext hkind hrender), Renaming.Alike.printed hw⟩
  | failed he => exact ⟨congrArg Except.error he.1, he.2.printed⟩
  | cut _ hcut => exact hcut.elim

/-- A call of a closure over a scope that does not exist does nothing but fail. -/
theorem call_closure_of_lost {w : World Empty} {scope : ScopeId} (hscope : w.scopes.size ≤ scope)
    (id : Nat) (label : Option String) (formals : List String) (body : Program) (s : ScopeId)
    (operands : List (Operand Empty)) :
    ∃ failure, Function.call ⟨id, label, .closure formals body scope⟩ s operands w =
      (.error failure, w) := by
  have hlost : EvalM.session scope w = (.error (.domain .lostScope), w) := by
    have hnone : w.sessionOf? scope = none := by
      rw [World.sessionOf?, Array.getElem?_eq_none hscope, Option.bind_none]
    simp only [EvalM.session, hnone]
  unfold Function.call Function.callWithin Function.apply
  generalize hadapt : Signature.adapt _ operands = adapted
  cases adapted with
  | error failure => exact ⟨failure, run_bind_error _ rfl⟩
  | ok operands' =>
    have hadapted : EvalM.ofExcept (.ok operands') w = (.ok operands', w) := rfl
    refine ⟨.domain .lostScope, ?_⟩
    rw [run_bind_ok _ hadapted]
    exact run_bind_error _ hlost

/-- A call of a closure over a scope that exists looks the same when it is repeated. -/
theorem call_closure_twice {w : World Empty} (hw : w.IsClosed) {scope : ScopeId}
    (hscope : scope < w.scopes.size) (id : Nat) (label : Option String) (formals : List String)
    (body : Program) (s : ScopeId) {operands : List (Operand Empty)} (h : w.KnowsAll operands) :
    let f : Function Empty := ⟨id, label, .closure formals body scope⟩
    observe (f.call s operands w).1 = observe (f.call s operands (f.call s operands w).2).1 ∧
      ∃ text, (f.call s operands w).2.printed = w.printed ++ text ∧
        (f.call s operands (f.call s operands w).2).2.printed =
          (f.call s operands w).2.printed ++ text := by
  intro f
  have hkept : Kept w World.Knows (f.call s operands w) :=
    keeps_call_closure id label formals body scope h w (.refl w) hw
  have hkeeps := Embedding.isParametric_empty.actsThroughCaller.keepsFrames
  have hframe := frame_call_closure hkeeps w id label formals body scope s operands
  obtain ⟨d, hd⟩ := Nat.exists_eq_add_of_le hkept.grows.scopes
  obtain ⟨e, he⟩ := Nat.exists_eq_add_of_le hkept.grows.ids
  have halike := shiftRenaming.alike hw hkept.closed hd he (fun t ht => hframe.kept ht trivial)
    hkept.sessions
  have hcaptures : (shiftRenaming w d e).Captures scope scope := .inl ⟨hscope, rfl⟩
  exact observe_eq_of_outcomes (Renaming.outcomes_call_closure shiftRenaming.isLawful
    (Embedding.isParametric_empty _) halike id id label label formals body hcaptures s s
    (shiftRenaming.refines.operands h))

/-- A closure has no memory. In every world that sessions come to, all that is bound exists, and so do
the values of evaluations. A call of a closure with arguments that exist and a second call right
after it end in ways that look the same, and print the same text. -/
theorem call_repeatable {w : World Empty} (hw : Reached w) :
    (∀ (t : ScopeId) (scope : Scope Empty) (entry : String × Value Empty),
      w.scopes[t]? = some scope → entry ∈ scope.table → entry.2.IsKnown w) ∧
    (∀ s p v, (evaluate s p w).1 = .ok v → v.IsKnown (evaluate s p w).2) ∧
    ∀ (id : Nat) (label : Option String) (formals : List String) (body : Program) (scope s : ScopeId)
      (args : List (Value Empty)), (∀ v ∈ args, v.IsKnown w) →
      let f : Function Empty := ⟨id, label, .closure formals body scope⟩
      let first := f.call s (args.map Operand.value) w
      let second := f.call s (args.map Operand.value) first.2
      observe first.1 = observe second.1 ∧
        ∃ text, first.2.printed = w.printed ++ text ∧
          second.2.printed = first.2.printed ++ text := by
  have hclosed := hw.isClosed
  refine ⟨fun t scope entry hs he => World.knows_iff.mp (hclosed.tables hs he), fun s p v hok => ?_, ?_⟩
  · exact World.knows_iff.mp ((keeps_evaluate s p w (.refl w) hclosed).result hok)
  · intro id label formals body scope s args hargs
    by_cases hscope : scope < w.scopes.size
    · exact call_closure_twice hclosed hscope id label formals body s (World.knowsAll_of_isKnown hargs)
    · obtain ⟨failure, hfails⟩ := call_closure_of_lost (Nat.not_lt.mp hscope) id label formals body s
        (args.map Operand.value)
      dsimp only
      rw [hfails, hfails]
      exact ⟨rfl, "", by rw [String.append_empty], by rw [String.append_empty]⟩

/-- A session with the special forms and the builtin operations. -/
def plainSession : World Empty :=
  (openRoot .empty .disabled false 8 World.empty).2

/-- A closure that makes a closure, calls it and prints what comes of it does so each time. -/
theorem call_repeatable_plainSession :
    let body : Program := [.left, .word "print", .left, .left, .word "lambda", .left, .word "y", .right,
      .left, .word "+", .word "x", .word "y", .right, .right, .word "1", .right, .right]
    let f : Function Empty := ⟨0, none, .closure ["x"] body 0⟩
    let operands : List (Operand Empty) := [Value.int 2].map Operand.value
    let first := f.call 0 operands plainSession
    let second := f.call 0 operands first.2
    observe first.1 = observe second.1 ∧
      ∃ text, first.2.printed = plainSession.printed ++ text ∧
        second.2.printed = first.2.printed ++ text := by
  have hhost : ∀ f : Function Empty, Host.empty.Offers f → f.IsKnown World.empty :=
    fun f hf => absurd hf (Host.not_offers_empty f)
  have hreached : Reached plainSession := (Reached.fresh rfl rfl).opened hhost .disabled false 8
  have hargs : ∀ v ∈ [(Value.int 2 : Value Empty)], v.IsKnown plainSession := by
    intro v hv
    cases List.mem_singleton.mp hv
    exact trivial
  exact (call_repeatable hreached).2.2 0 none ["x"] _ 0 0 [.int 2] hargs

end FlatLisp
