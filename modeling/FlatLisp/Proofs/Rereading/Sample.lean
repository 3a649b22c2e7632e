import FlatLisp.Embed.Sample
import FlatLisp.Proofs.Rereading.Evaluation

/-!
# Sample functions pass on what they are given

The sample functions of an embedder make no functions of the language but by way of their caller, and
pass on those that they are given as they are.
-/

namespace FlatLisp.Embed

/-- A function that does not look at the scope it is called from. -/
theorem passesOn_plain {params : List ParamType} {rest : Option ParamType}
    {run : Args Sample params rest → Value Sample}
    (h : ∀ (w : World Sample) i args, Args.IsWritten w i params rest args → (run args).IsWritten w i) :
    (plain params rest run).PassesOn := by
  refine Typed.passesOn_pure fun w i args a hargs hok => ?_
  cases hok
  exact h w i args hargs

/-- A function without parameters. -/
theorem passesOn_constant {m : EvalM Sample (Value Sample)}
    (h : ∀ (w : World Sample) i, Upholds w (fun v a => a.IsWritten v i) m m) :
    (constant m).PassesOn :=
  fun w i _ _ _ _ _ => h w i

/-- A function that acts on the scope it is called from. -/
theorem passesOn_inScope {params : List ParamType}
    {run : Caller Sample → Args Sample params none → EvalM Sample (Value Sample)}
    (h : ∀ (w : World Sample) i scope evaluate call evaluate' call' args,
      Caller.Uphold w i ⟨scope, evaluate, call⟩ ⟨scope, evaluate', call'⟩ →
      Args.IsWritten w i params none args →
      Upholds w (fun v a => a.IsWritten v i) (run ⟨scope, evaluate, call⟩ args)
        (run ⟨scope, evaluate', call'⟩ args)) : (inScope params run).PassesOn := by
  intro w i caller caller' args hc hargs
  obtain ⟨scope, evaluate, call⟩ := caller
  obtain ⟨scope', evaluate', call'⟩ := caller'
  cases hc.scope
  exact h w i scope evaluate call evaluate' call' args hc hargs

/-- Looking at the world changes nothing. -/
theorem upholds_get {w : World Sample} :
    Upholds w (fun _ _ => True) (get : EvalM Sample (World Sample)) get :=
  fun _ _ hauthored => ⟨rfl, .of_same hauthored fun _ _ => trivial⟩

/-- Typed samples pass on what they are given. -/
theorem TypedSample.passesOn (f : TypedSample) : f.typed.PassesOn := by
  cases f with
  | quote | sameSymbol | numberTag | join3 | join4 | join2Programs | join3Programs | join4Programs
  | joinXor | joinSymbols | joinPrograms | joinPrograms1 =>
    exact passesOn_plain fun _ _ _ _ => .symbol _
  | answer | sameInt | intIf | countAll | countNumbers | countTrue =>
    exact passesOn_plain fun _ _ _ _ => .int _
  | sameFloat => exact passesOn_plain fun _ _ _ _ => .float _
  | sameBool => exact passesOn_plain fun _ _ _ _ => .bool _
  | sameComplex => exact passesOn_plain fun _ _ _ _ => .complex _
  | sameFunction => exact passesOn_plain fun _ _ _ h => .function h.1
  | sameObject | sameValue => exact passesOn_plain fun _ _ _ h => h.1
  | joinIf =>
    refine passesOn_plain fun w i args _ => ?_
    obtain ⟨b, _, rest⟩ := args
    cases b with
    | true => exact .symbol _
    | false => exact .symbol _
  | safeDiv =>
    refine Typed.passesOn_pure fun w i args a _ h => ?_
    obtain ⟨a, b, _⟩ := args
    simp only [safeDivide] at h
    split at h
    · cases h
    · split at h
      · cases h
        exact .int _
      · cases h
  | inRoot | hasLocal =>
    refine passesOn_inScope fun _ _ _ _ _ _ _ _ _ _ => ?_
    exact upholds_bind upholds_get fun _ _ _ _ => upholds_pure fun _ _ => .bool _
  | bindHere =>
    refine passesOn_inScope fun w i scope _ _ _ _ args hc hargs => ?_
    obtain ⟨name, a, _⟩ := args
    obtain ⟨-, ha, -⟩ := hargs
    refine upholds_bind (upholds_bindName hc.houses name ha) fun v _ hv _ => ?_
    exact upholds_pure fun u hu => (hv.trans hu).value ha
  | branchOnZero =>
    refine passesOn_inScope fun w i scope _ _ _ _ args hc hargs => ?_
    obtain ⟨p, zero, other, _⟩ := args
    obtain ⟨hp, hzero, hother, -⟩ := hargs
    refine upholds_bind (hc.evaluate (.refl w) hc.houses hp.canRead) fun v a hv _ => ?_
    refine hc.evaluate hv (hv.houses hc.houses) (hv.canRead ?_)
    split
    · exact hzero.canRead
    · exact hother.canRead
  | callWith3 =>
    refine passesOn_inScope fun w i scope _ _ _ _ args hc hargs => ?_
    obtain ⟨f, a, b, c, _⟩ := args
    obtain ⟨hf, ha, hb, hc', -⟩ := hargs
    refine hc.call (.refl w) hf ?_
    simp only [List.forall_mem_cons]
    exact ⟨ha, hb, hc', nofun⟩
  | twice =>
    refine passesOn_inScope fun w i scope _ _ _ _ args hc hargs => ?_
    obtain ⟨p, _⟩ := args
    obtain ⟨hp, -⟩ := hargs
    refine upholds_bind (hc.evaluate (.refl w) hc.houses hp.canRead) fun v _ hv _ => ?_
    exact hc.evaluate hv (hv.houses hc.houses) (hv.canRead hp.canRead)
  | constInt8 | constInt16 | constInt32 | constWord8 | constWord16 | constWord32 | constValue =>
    exact passesOn_constant fun _ _ => upholds_pure fun _ _ => .int _
  | constFloat => exact passesOn_constant fun _ _ => upholds_pure fun _ _ => .float _
  | constComplex => exact passesOn_constant fun _ _ => upholds_pure fun _ _ => .complex _
  | constUnit => exact passesOn_constant fun _ _ => upholds_pure fun _ _ => .empty
  | constText => exact passesOn_constant fun _ _ => upholds_pure fun _ _ => .symbol _
  | constFunction =>
    refine passesOn_constant fun w i => ?_
    refine upholds_bind (Q := fun v f => Function.IsWritten v i f) ?_ fun v f _ hf =>
      upholds_pure fun u hu => .function (hu.function hf)
    refine upholds_bind upholds_newId fun _ _ _ _ => upholds_pure fun u _ => ?_
    exact Function.isWritten_of_not_isDefined id u i
  | constObject | constHidden =>
    exact passesOn_constant fun _ _ => upholds_bind upholds_newId fun _ _ _ _ =>
      upholds_pure fun _ _ => Value.all_plain _ _ _
  | constError => exact passesOn_constant fun _ _ => upholds_throw _
  | mixed2 | mixed4 | mixedRest1 | mixedRest2 => exact passesOn_plain fun _ _ _ _ => .empty
  | mixedScoped =>
    exact passesOn_inScope fun _ _ _ _ _ _ _ _ _ _ => upholds_pure fun _ _ => .empty

/-- Samples on payloads pass on what they are given. -/
theorem HostSample.passesOn (f : HostSample) : (Native.passThrough f.run).PassesOn := by
  intro w i payloads h
  cases f with
  | textLength =>
    simp only [HostSample.run]
    split
    · exact upholds_pure fun _ _ => trivial
    · exact upholds_throw _
  | echo =>
    refine upholds_pure fun v hv => ?_
    cases hlast : payloads.getLast? with
    | none => trivial
    | some r => exact hv.payload (h r (List.mem_of_getLast? hlast))
  | countWord | nested | lead | tail | int32 | single | bytes | size | one | two | count =>
    exact upholds_pure fun _ _ => trivial
  | boxed => exact upholds_pure fun _ _ => .bool true
  | object =>
    exact upholds_bind upholds_newId fun _ _ _ _ => upholds_pure fun _ _ => Value.all_plain _ _ _
  | fail => exact upholds_throw _

/-- Sample functions pass on what they are given. -/
theorem passesOn_sample : Embedding.PassesOn Sample := by
  intro e
  cases e with
  | typed f => exact f.passesOn
  | host f => exact f.passesOn
  | negate => exact passesOn_plain fun _ _ _ _ => .int _

end FlatLisp.Embed
