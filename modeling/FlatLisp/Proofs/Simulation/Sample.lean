import FlatLisp.Embed.Sample
import FlatLisp.Proofs.Simulation.Primitive

/-!
# Sample functions in simulated runs

The sample functions of an embedder are parametric: each of them does its work by way of its caller
and passes on functions and objects as they are. So what is shown of all parametric functions holds
for sessions with sample functions.
-/

namespace FlatLisp.Embed

open FlatLisp.Correspondence

variable {sim : Simulation Sample}

/-- A function that makes corresponding values of corresponding arguments. -/
theorem respects_plain {params : List ParamType} {rest : Option ParamType}
    {run : Args Sample params rest → Value Sample}
    (h : ∀ args args', sim.Arguments params rest args args' →
      sim.Values (run args) (run args')) : sim.Respects (plain params rest run) :=
  Simulation.respects_pure fun args args' ha => .ok (h args args' ha)

/-- A function of flat arguments, whose results are the same in both runs. -/
theorem respects_same {params : List ParamType} {rest : Option ParamType}
    {run : Args Sample params rest → Value Sample} (hparams : params.all ParamType.isFlat = true)
    (hrest : rest.all ParamType.isFlat = true) (h : ∀ args, sim.Values (run args) (run args)) :
    sim.Respects (plain params rest run) :=
  Simulation.respects_flat hparams hrest fun args => .ok (h args)

/-- A function without parameters respects every simulation that its result respects. -/
theorem respects_constant {m : EvalM Sample (Value Sample)} (h : sim.Runs sim.Values m m) :
    sim.Respects (constant m) :=
  fun _ _ _ _ _ _ => h

/-- Division fails in an ordinary way, if at all. -/
theorem answers_safeDivide (a b : Int64) :
    Answers sim.Values (safeDivide a b) (safeDivide a b) := by
  unfold safeDivide
  dsimp only
  split
  · exact .error (e := .domain (.reported "division by zero")) trivial
  · split
    · exact .ok (.int _)
    · exact .error trivial

/-- Corresponding values have the same texts. -/
theorem map_render {vs vs' : List (Value Sample)} (h : List.Forall₂ sim.Values vs vs') :
    vs.map Value.render = vs'.map Value.render := by
  induction h with
  | nil => rfl
  | cons hv _ ih => rw [List.map_cons, List.map_cons, sim.values_render hv, ih]

/-- Whether the caller is in a root is the same in both runs. -/
theorem respects_inRoot : sim.Respects (TypedSample.typed .inRoot) := by
  intro caller caller' _ _ hc _ w w' hw
  change sim.Outcomes sim.Values (.ok (.bool (w.isRoot caller.scope)), w)
    (.ok (.bool (w'.isRoot caller'.scope)), w')
  rw [sim.isRoot hc.scope hw]
  exact .ok (.bool _) hw

/-- Whether the caller's scope binds a name itself is the same in both runs. -/
theorem respects_hasLocal : sim.Respects (TypedSample.typed .hasLocal) := by
  intro caller caller' args args' hc ha w w' hw
  obtain ⟨name, _⟩ := args
  obtain ⟨_, _⟩ := args'
  obtain ⟨rfl, -⟩ := ha
  change sim.Outcomes sim.Values (.ok (.bool (w.hasLocal caller.scope name)), w)
    (.ok (.bool (w'.hasLocal caller'.scope name)), w')
  rw [sim.hasLocal name hc.scope hw]
  exact .ok (.bool _) hw

/-- A value is bound in the scope that the sample is called from. -/
theorem respects_bindHere : sim.Respects (TypedSample.typed .bindHere) := by
  intro caller caller' args args' hc ha
  obtain ⟨name, v, _⟩ := args
  obtain ⟨_, v', _⟩ := args'
  obtain ⟨rfl, hv, -⟩ := ha
  exact runs_bind (sim.bind name hc.scope hv) fun _ _ _ => runs_pure hv

/-- The condition and one of the branches are evaluated where the sample is called from. -/
theorem respects_branchOnZero : sim.Respects (TypedSample.typed .branchOnZero) := by
  intro caller caller' args args' hc ha
  obtain ⟨p, zero, other, _⟩ := args
  obtain ⟨_, _, _, _⟩ := args'
  obtain ⟨⟨rfl, hp⟩, ⟨rfl, hzero⟩, ⟨rfl, hother⟩, -⟩ := ha
  refine runs_bind (hc.evaluate hc.scope hp) fun v v' hv => ?_
  rw [sim.values_same hv (.int 0)]
  split
  · exact hc.evaluate hc.scope hzero
  · exact hc.evaluate hc.scope hother

/-- A function is called by way of the caller. -/
theorem respects_callWith3 : sim.Respects (TypedSample.typed .callWith3) := by
  intro caller caller' args args' hc ha
  obtain ⟨f, u, v, x, _⟩ := args
  obtain ⟨f', u', v', x', _⟩ := args'
  obtain ⟨hf, hu, hv, hx, -⟩ := ha
  exact hc.call hf (.cons (.value hu) (.cons (.value hv) (.cons (.value hx) .nil)))

/-- A form is evaluated twice where the sample is called from. -/
theorem respects_twice : sim.Respects (TypedSample.typed .twice) := by
  intro caller caller' args args' hc ha
  obtain ⟨p, _⟩ := args
  obtain ⟨_, _⟩ := args'
  obtain ⟨⟨rfl, hp⟩, -⟩ := ha
  exact runs_bind (hc.evaluate hc.scope hp) fun _ _ _ => hc.evaluate hc.scope hp

/-- Samples with typed parameters respect every simulation. -/
theorem respects_typed (f : TypedSample) : sim.Respects f.typed := by
  cases f with
  | quote | sameSymbol | numberTag | join2Programs | join3Programs | join4Programs | joinSymbols
  | joinPrograms | joinPrograms1 => exact respects_same rfl rfl fun _ => .symbol _
  | answer | sameInt | intIf | countNumbers | countTrue =>
    exact respects_same rfl rfl fun _ => .int _
  | sameFloat => exact respects_same rfl rfl fun _ => .float _
  | sameBool => exact respects_same rfl rfl fun _ => .bool _
  | sameComplex => exact respects_same rfl rfl fun _ => .complex _
  | constInt8 | constInt16 | constInt32 | constWord8 | constWord16 | constWord32 | constValue =>
    exact respects_constant (runs_pure (.int _))
  | constFloat => exact respects_constant (runs_pure (.float _))
  | constComplex => exact respects_constant (runs_pure (.complex _))
  | constUnit => exact respects_constant (runs_pure .empty)
  | constText => exact respects_constant (runs_pure (.symbol _))
  | constError => exact respects_constant (sim.runs_throw trivial)
  | constFunction =>
    exact respects_constant (runs_bind (runs_bind sim.newId fun _ _ ha =>
      runs_pure ⟨ha, rfl, .embedded _⟩) fun _ _ hf => runs_pure (.function hf))
  | constObject | constHidden =>
    exact respects_constant (runs_bind sim.newId fun _ _ ha =>
      runs_pure (.object (sim.objects_plain ha _)))
  | mixed2 | mixed4 | mixedRest1 | mixedRest2 => exact respects_plain fun _ _ _ => .empty
  | mixedScoped => exact fun _ _ _ _ _ _ => runs_pure .empty
  | sameFunction => exact respects_plain fun _ _ ha => .function ha.1
  | sameObject => exact respects_plain fun _ _ ha => .object ha.1
  | sameValue => exact respects_plain fun _ _ ha => ha.1
  | join3 =>
    refine respects_plain fun args args' ha => ?_
    obtain ⟨v, x, text, _⟩ := args
    obtain ⟨v', _, _, _⟩ := args'
    obtain ⟨hv, rfl, rfl, -⟩ := ha
    simp only [sim.values_render hv]
    exact .symbol _
  | join4 =>
    refine respects_plain fun args args' ha => ?_
    obtain ⟨m, n, v, b, _⟩ := args
    obtain ⟨_, _, v', _, _⟩ := args'
    obtain ⟨rfl, rfl, hv, rfl, -⟩ := ha
    simp only [sim.values_render hv]
    exact .symbol _
  | joinIf =>
    refine respects_plain fun args args' ha => ?_
    obtain ⟨b, v, rest⟩ := args
    obtain ⟨_, v', rest'⟩ := args'
    obtain ⟨rfl, hv, hrest⟩ := ha
    simp only [sim.values_render hv, map_render hrest]
    split <;> exact .symbol _
  | joinXor =>
    refine respects_plain fun args args' ha => ?_
    obtain ⟨u, v, x, rest⟩ := args
    obtain ⟨u', v', x', rest'⟩ := args'
    obtain ⟨hu, hv, hx, hrest⟩ := ha
    have heq : rest = rest' := List.forall₂_eq_eq_eq ▸ hrest
    simp only [sim.values_render hu, sim.values_render hv, sim.values_render hx, heq]
    exact .symbol _
  | countAll =>
    refine respects_plain fun rest rest' hrest => ?_
    simp only [countOf, List.Forall₂.length_eq hrest]
    exact .int _
  | safeDiv =>
    exact Simulation.respects_flat rfl rfl fun args => answers_safeDivide args.1 args.2.1
  | inRoot => exact respects_inRoot
  | hasLocal => exact respects_hasLocal
  | bindHere => exact respects_bindHere
  | branchOnZero => exact respects_branchOnZero
  | callWith3 => exact respects_callWith3
  | twice => exact respects_twice

/-- The last of corresponding payloads correspond. -/
theorem rel_getLast? {rs rs' : List (Foreign Sample)} (h : List.Forall₂ sim.Payloads rs rs') :
    Option.Rel sim.Payloads rs.getLast? rs'.getLast? := by
  rw [List.getLast?_eq_head?_reverse, List.getLast?_eq_head?_reverse]
  have hreverse := List.forall₂_reverse_iff.mpr h
  generalize rs.reverse = qs, rs'.reverse = qs' at hreverse
  cases hreverse with
  | nil => exact .none
  | cons h _ => exact .some h

/-- Samples on payloads respect every simulation. -/
theorem runs_host (f : HostSample) {rs rs' : List (Foreign Sample)}
    (h : List.Forall₂ sim.Payloads rs rs') : sim.Runs sim.Payloads (f.run rs) (f.run rs') := by
  cases f with
  | textLength =>
    have hrefused : (Error.domain (.reported "expected text")).IsOrdinary := trivial
    have hlast := rel_getLast? h
    simp only [HostSample.run]
    generalize rs.getLast? = r, rs'.getLast? = r' at hlast
    cases hlast with
    | none => exact sim.runs_throw hrefused
    | some hr =>
      cases hr with
      | text s => exact runs_pure (.int64 _)
      | _ => exact sim.runs_throw hrefused
  | echo =>
    have hlast := rel_getLast? h
    simp only [HostSample.run]
    generalize rs.getLast? = r, rs'.getLast? = r' at hlast
    cases hlast with
    | none => exact runs_pure .unit
    | some hr => exact runs_pure hr
  | countWord =>
    simp only [HostSample.run, h.length_eq]
    exact runs_pure (.word32 _)
  | nested | lead | tail => exact runs_pure (.fixedText _)
  | int32 => exact runs_pure (.int32 _)
  | single => exact runs_pure (.single _)
  | bytes | size => exact runs_pure .unclaimed
  | boxed => exact runs_pure (.boxed (.bool true))
  | object =>
    exact runs_bind sim.newId fun _ _ ha => runs_pure (.object (sim.objects_plain ha _))
  | fail => exact sim.runs_throw trivial
  | one | two => exact runs_pure (.int64 _)
  | count =>
    simp only [HostSample.run, h.length_eq]
    exact runs_pure (.int64 _)

/-- Sample functions are parametric. -/
theorem isParametric_sample : Embedding.IsParametric Sample := by
  intro sim e caller caller' operands operands' hc h
  cases e with
  | typed f => exact (respects_typed f).runs_invoke hc h
  | host f => exact Simulation.runs_passThrough caller caller' (fun _ _ => runs_host f) h
  | negate => exact Simulation.Respects.runs_invoke (respects_same rfl rfl fun _ => .int _) hc h

end FlatLisp.Embed
