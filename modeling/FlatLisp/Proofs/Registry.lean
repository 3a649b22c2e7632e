import FlatLisp.Proofs.Scopes
import FlatLisp.Proofs.Simulation.Correspondence

/-!
# Registries of host functions

A registry is made by numbering functions and putting each under its path. That changes nothing else,
and the registry has no functions but those that it was made of. So the standard one has no closures.
-/

namespace FlatLisp

variable {E : Type}

/-- What every step of a fold keeps is kept by the fold. -/
theorem EvalM.exists_foldlM {α β : Type} {f : β → α → EvalM E β} {I : β → World E → Prop}
    {as : List α}
    (hstep : ∀ a ∈ as, ∀ b w, I b w → ∃ b' w', f b a w = (.ok b', w') ∧ I b' w') {b : β}
    {w : World E} (h : I b w) : ∃ b' w', as.foldlM f b w = (.ok b', w') ∧ I b' w' := by
  induction as generalizing b w with
  | nil => exact ⟨b, w, rfl, h⟩
  | cons a as ih =>
    obtain ⟨b₁, w₁, hrun, h₁⟩ := hstep a List.mem_cons_self b w h
    rw [List.foldlM_cons, Correspondence.run_bind_ok _ hrun]
    exact ih (fun a' ha' => hstep a' (List.mem_cons_of_mem a ha')) h₁

namespace Registry

/-- A registry has the function that is put in and what it had before. -/
theorem mem_insert {r : Registry E} {path : String} {f : Function E}
    {entry : (String × String) × Function E} (h : entry ∈ r.insert path f) :
    entry = (splitPath path, f) ∨ entry ∈ r :=
  (List.mem_cons.mp h).imp_right fun hold => (List.mem_filter.mp hold).1

/-- Making a registry takes nothing but numbers for its functions, which have the given bodies. -/
theorem exists_ofFunctions (entries : List (String × Option String × Body E)) (w : World E) :
    ∃ registry next, ofFunctions entries w = (.ok registry, { w with nextId := next }) ∧
      ∀ entry ∈ registry, ∃ given ∈ entries, entry.2.body = given.2.2 := by
  have hrun : ∃ registry w', ofFunctions entries w = (.ok registry, w') ∧
      w' = { w with nextId := w'.nextId } ∧
      ∀ entry ∈ registry, ∃ given ∈ entries, entry.2.body = given.2.2 := by
    cases entries with
    | nil => exact ⟨[], w, rfl, rfl, List.forall_mem_nil _⟩
    | cons first rest =>
      refine EvalM.exists_foldlM (I := fun (r : Registry E) v => v = { w with nextId := v.nextId } ∧
        ∀ entry ∈ r, ∃ given ∈ first :: rest, entry.2.body = given.2.2)
        (fun given hgiven r v hv => ⟨_, _, rfl, ?_, fun entry hentry => ?_⟩)
        ⟨rfl, List.forall_mem_nil _⟩
      · exact congrArg (fun u : World E => { u with nextId := v.nextId + 1 }) hv.1
      · rcases mem_insert hentry with rfl | hold
        · exact ⟨given, hgiven, rfl⟩
        · exact hv.2 entry hold
  obtain ⟨registry, w', hrun, hw', hbodies⟩ := hrun
  exact ⟨registry, w'.nextId, hw' ▸ hrun, hbodies⟩

/-- The standard registry can be made, and all its functions are host functions. -/
theorem exists_standard (w : World E) :
    ∃ registry next, standard w = (.ok registry, { w with nextId := next }) ∧
      ∀ entry ∈ registry, ∃ f, entry.2.body = .host f := by
  obtain ⟨registry, next, hrun, hbodies⟩ := exists_ofFunctions (E := E)
    (HostFunction.all.map fun f => (f.path, some (hostLabel f.path), .host f)) w
  refine ⟨registry, next, hrun, fun entry hentry => ?_⟩
  obtain ⟨given, hgiven, hbody⟩ := hbodies entry hentry
  obtain ⟨f, -, rfl⟩ := List.mem_map.mp hgiven
  exact ⟨f, hbody⟩

end Registry

/-- Hosts that offer no function with a scope of its own. -/
def Host.HasNoClosures (host : Host E) : Prop :=
  ∀ f, host.Offers f → f.scope? = none

/-- There are no closures in the standard registry. -/
theorem Registry.hasNoClosures_standard {w w' : World E} {registry : Registry E}
    (h : standard w = (.ok registry, w')) : registry.host.HasNoClosures := by
  intro f hf
  obtain ⟨entry, hentry, rfl⟩ := exists_mem_of_offers hf
  obtain ⟨made, next, hrun, hbodies⟩ := exists_standard w
  cases h.symm.trans hrun
  obtain ⟨host, hbody⟩ := hbodies entry hentry
  rw [Function.scope?, hbody]

end FlatLisp
