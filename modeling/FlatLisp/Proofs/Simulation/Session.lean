import FlatLisp.Proofs.Simulation.Evaluation

/-!
# Simulated starts of sessions

The functions that a session starts with are bound alike in corresponding scopes.
-/

namespace FlatLisp.Simulation

open FlatLisp.Correspondence

variable {E : Type} {sim : Simulation E} {s s' : ScopeId}

/-- A new function is bound under the same names. -/
theorem runs_installNamed (hs : sim.Scopes s s') (names : List String) {body body' : Body E}
    (hbody : sim.Bodies body body') :
    sim.Runs Eq (installNamed s names body) (installNamed s' names body') := by
  refine runs_bind sim.newId fun a a' ha => runs_bindAll hs ?_
  rw [List.forall₂_map_left_iff, List.forall₂_map_right_iff, List.forall₂_same]
  exact fun name _ => ⟨rfl, .function ⟨ha, rfl, hbody⟩⟩

/-- The special forms are bound alike. -/
theorem runs_installForms (hs : sim.Scopes s s') (forms : List Form) :
    sim.Runs Eq (installForms s forms) (installForms s' forms) := by
  induction forms with
  | nil => exact runs_pure rfl
  | cons form forms ih => exact runs_bind (runs_installNamed hs _ (.form form)) fun _ _ _ => ih

/-- The builtin operations are bound alike. -/
theorem runs_installBuiltins (hs : sim.Scopes s s') (bs : List Builtin) :
    sim.Runs Eq (installBuiltins s bs) (installBuiltins s' bs) := by
  induction bs with
  | nil => exact runs_pure rfl
  | cons b bs ih => exact runs_bind (runs_installNamed hs _ (.builtin b)) fun _ _ _ => ih

end FlatLisp.Simulation
