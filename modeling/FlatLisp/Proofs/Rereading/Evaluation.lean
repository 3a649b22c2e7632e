import FlatLisp.Proofs.Adaptation
import FlatLisp.Proofs.Rereading.Written

/-!
# Evaluation of what was written

Every part of evaluation keeps what was written: signatures and parameters pass on what they are given,
the forms `lambda` and `macro` are given forms that can be read, and templates put such forms together
to programs that can be read. Functions of the embedder are assumed to pass on what they are given, too.

All lemmas compare two evaluators that do the same at lower levels, so that evaluation may in the end be
compared with one that takes a second look at every value.
-/

namespace FlatLisp

variable {E : Type} {w v : World E} {i : Nat} {s : ScopeId}

/-! ## Operands -/

/-- Flattening an operand keeps its functions. -/
theorem Operand.IsWritten.flatten {o : Operand E} (h : o.IsWritten w i) : o.flatten.IsWritten w i := by
  cases o with
  | value a => exact Value.All.toForeign h
  | program p => exact h
  | raw r => exact h

/-- An operand as a payload keeps its functions. -/
theorem Operand.IsWritten.toForeign {o : Operand E} (h : o.IsWritten w i) :
    o.toForeign.All (Function.IsWritten w i) := by
  cases o with
  | value a => exact Value.All.toForeign h
  | program p => trivial
  | raw r => exact h

/-- A requirement passes on the operand or its payload. -/
theorem isWritten_of_adaptOne {spec : ParamSpec} {o adapted : Operand E} {position : Nat}
    (h : o.IsWritten w i) (hadapt : spec.adapt o position = .ok adapted) : adapted.IsWritten w i := by
  unfold ParamSpec.adapt at hadapt
  split at hadapt
  · cases hadapt
    split
    · exact h.flatten
    · exact h
  · cases hadapt

/-- Requirements pass on operands or their payloads. -/
theorem isWritten_of_adaptFrom {variadic : Option ParamSpec} {specs : List ParamSpec} {position : Nat}
    {operands adapted : List (Operand E)} (h : ∀ o ∈ operands, o.IsWritten w i)
    (hadapt : Signature.adaptFrom variadic position specs operands = .ok adapted) :
    ∀ o ∈ adapted, o.IsWritten w i := by
  induction operands generalizing position specs adapted with
  | nil =>
    cases specs <;> cases hadapt <;> exact nofun
  | cons o operands ih =>
    obtain ⟨ho, hrest⟩ := List.forall_mem_cons.mp h
    rw [Signature.adaptFrom_cons] at hadapt
    cases hfirst : (Signature.specAt variadic specs 0).adapt o position with
    | error e =>
      rw [hfirst] at hadapt
      cases hadapt
    | ok first =>
      cases hothers : Signature.adaptFrom variadic (position + 1) specs.tail operands with
      | error e =>
        rw [hfirst, hothers] at hadapt
        cases hadapt
      | ok others =>
        rw [hfirst, hothers] at hadapt
        cases hadapt
        exact List.forall_mem_cons.mpr ⟨isWritten_of_adaptOne ho hfirst, ih hrest hothers⟩

/-- A signature passes on operands or their payloads. -/
theorem isWritten_of_adapt {signature : Signature} {operands adapted : List (Operand E)}
    (h : ∀ o ∈ operands, o.IsWritten w i) (hadapt : signature.adapt operands = .ok adapted) :
    ∀ o ∈ adapted, o.IsWritten w i := by
  unfold Signature.adapt at hadapt
  split at hadapt
  · split at hadapt
    · exact isWritten_of_adaptFrom h hadapt
    · cases hadapt
  · cases hadapt
    intro o ho
    obtain ⟨before, hbefore, rfl⟩ := List.mem_map.mp ho
    exact (h before hbefore).flatten

/-! ## Arguments -/

/-- What a parameter receives is as session `i` can have made it. -/
def ParamType.IsWritten (w : World E) (i : Nat) : (type : ParamType) → type.Carrier E → Prop
  | .value => Value.IsWritten w i
  | .program => w.CanReadPart i
  | .function => Function.IsWritten w i
  | .object => fun o => (Value.object o).IsWritten w i
  | .bool | .int | .float | .complex | .number | .symbol => fun _ => True

/-- What the parameters of a function receive is as session `i` can have made it. -/
def Args.IsWritten (w : World E) (i : Nat) :
    (types : List ParamType) → (rest : Option ParamType) → Args E types rest → Prop
  | [], none, _ => True
  | [], some type, as => ∀ a ∈ as, type.IsWritten w i a
  | type :: types, rest, as => type.IsWritten w i as.1 ∧ IsWritten w i types rest as.2

/-- What parameters receive stays as it was made. -/
theorem World.Continues.carrier (h : w.Continues v) {type : ParamType} {a : type.Carrier E}
    (ha : type.IsWritten w i a) : type.IsWritten v i a := by
  cases type with
  | value => exact h.value ha
  | program => exact h.canReadPart ha
  | function => exact h.function ha
  | object => exact h.value ha
  | bool | int | float | complex | number | symbol => exact trivial

/-- Arguments stay as they were made. -/
theorem World.Continues.args (h : w.Continues v) {types : List ParamType} {rest : Option ParamType}
    {args : Args E types rest} (hargs : Args.IsWritten w i types rest args) :
    Args.IsWritten v i types rest args := by
  induction types with
  | nil =>
    cases rest with
    | none => exact trivial
    | some type => exact fun a ha => h.carrier (hargs a ha)
  | cons type types ih => exact ⟨h.carrier hargs.1, ih hargs.2⟩

/-- A parameter takes from a value what the value holds. -/
theorem isWritten_of_ofValue? {type : ParamType} {a : Value E} {payload : type.Carrier E}
    (ha : a.IsWritten w i) (h : type.ofValue? a = some payload) : type.IsWritten w i payload := by
  cases type with
  | value =>
    cases h
    exact ha
  | program => cases h
  | function =>
    cases ha with
    | function hf =>
      cases h
      exact hf
    | _ => cases h
  | object =>
    cases a with
    | object o =>
      cases h
      exact ha
    | _ => cases h
  | bool | int | float | complex | number | symbol => exact trivial

/-- A parameter takes from a payload what the payload holds. -/
theorem isWritten_of_ofForeign? {type : ParamType} {r : Foreign E} {id : Nat} {payload : type.Carrier E}
    (hr : r.All (Function.IsWritten w i)) (h : type.ofForeign? id r = some payload) :
    type.IsWritten w i payload := by
  cases type with
  | value =>
    cases h
    exact hr.ensure id
  | program => cases h
  | function =>
    cases r with
    | function f =>
      cases h
      exact hr
    | _ => cases h
  | object =>
    cases r with
    | object o =>
      cases h
      exact hr
    | _ => cases h
  | bool | int | float | complex | number | symbol => exact trivial

/-- A parameter that requires something takes nothing else. -/
theorem upholds_require {type : ParamType} {position : Nat} {found : String}
    {payload? : Option (type.Carrier E)}
    (h : ∀ v payload, w.Extends v → payload? = some payload → type.IsWritten v i payload) :
    Upholds w (fun v => type.IsWritten v i) (EvalM.ofExcept (type.require position found payload?))
      (EvalM.ofExcept (type.require position found payload?)) := by
  refine upholds_ofExcept fun a v hok hgrows => ?_
  cases payload? with
  | none => cases hok
  | some payload =>
    cases hok
    exact h v _ hgrows rfl

/-- A parameter reads what it is given. -/
theorem upholds_read (type : ParamType) (position : Nat) {o : Operand E} (h : o.IsWritten w i) :
    Upholds w (fun v => type.IsWritten v i) (type.read o position) (type.read o position) := by
  cases o with
  | value a =>
    rw [ParamType.read_value]
    exact upholds_require fun v _ hgrows hpayload => isWritten_of_ofValue? (hgrows.value h) hpayload
  | program p =>
    rw [ParamType.read_program]
    refine upholds_require fun v payload hgrows hpayload => ?_
    cases type with
    | program =>
      cases hpayload
      exact hgrows.canReadPart h
    | _ => cases hpayload
  | raw r =>
    rw [ParamType.read_raw]
    refine upholds_bind upholds_newId fun v id hv _ => upholds_require fun u _ hu hpayload => ?_
    exact isWritten_of_ofForeign? ((hv.trans hu).payload h) hpayload

/-- Parameters of one type read what they are given. -/
theorem upholds_readRest (type : ParamType) (position : Nat) {operands : List (Operand E)}
    (h : ∀ o ∈ operands, o.IsWritten w i) :
    Upholds w (fun v as => ∀ a ∈ as, type.IsWritten v i a) (Args.readRest type position operands)
      (Args.readRest type position operands) := by
  induction operands generalizing w position with
  | nil => exact upholds_pure fun _ _ => nofun
  | cons o operands ih =>
    obtain ⟨ho, hrest⟩ := List.forall_mem_cons.mp h
    refine upholds_bind (upholds_read type position ho) fun v a hv ha => ?_
    refine upholds_bind (ih (position + 1) fun o ho => hv.operand (hrest o ho)) fun u as hu has => ?_
    refine upholds_pure fun x hx => List.forall_mem_cons.mpr ⟨(hu.trans hx).carrier ha, ?_⟩
    exact fun b hb => hx.carrier (has b hb)

/-- The parameters of a function read what they are given. -/
theorem upholds_readFrom (missing : Error) (types : List ParamType) (rest : Option ParamType)
    (position : Nat) {operands : List (Operand E)} (h : ∀ o ∈ operands, o.IsWritten w i) :
    Upholds w (fun v => Args.IsWritten v i types rest)
      (Args.readFrom missing types rest position operands)
      (Args.readFrom missing types rest position operands) := by
  induction types generalizing w position operands with
  | nil =>
    cases rest with
    | none => exact upholds_pure fun _ _ => trivial
    | some type => exact upholds_readRest type position h
  | cons type types ih =>
    cases operands with
    | nil => exact upholds_throw missing
    | cons o operands =>
      obtain ⟨ho, hrest⟩ := List.forall_mem_cons.mp h
      refine upholds_bind (upholds_read type position ho) fun v a hv ha => ?_
      refine upholds_bind (ih (position + 1) fun o ho => hv.operand (hrest o ho)) fun u as hu has => ?_
      exact upholds_pure fun x hx => ⟨(hu.trans hx).carrier ha, hx.args has⟩

/-! ## Functions outside of the language -/

/-- Two callers that do the same and keep what was written. They call from a scope of session `i`, which
allows two evaluations to be nested. -/
structure Caller.Uphold (w : World E) (i : Nat) (caller caller' : Caller E) : Prop where
  scope : caller'.scope = caller.scope
  houses : w.Houses caller.scope i
  nested : ∀ session, w.sessions[i]? = some session → 2 ≤ session.maxDepth
  evaluate {v : World E} {s : ScopeId} {p : Program} (hv : w.Extends v) (hs : v.Houses s i)
    (hp : v.CanRead i p) :
    Upholds v (fun u a => a.IsWritten u i) (caller.evaluate s p) (caller'.evaluate s p)
  call {v : World E} {f : Function E} {operands : List (Operand E)} (hv : w.Extends v)
    (hf : f.IsWritten v i) (ho : ∀ o ∈ operands, o.IsWritten v i) :
    Upholds v (fun u a => a.IsWritten u i) (caller.call f operands) (caller'.call f operands)

/-- Callers can be called from in extensions, too. -/
theorem Caller.Uphold.extend {caller caller' : Caller E} (h : Caller.Uphold w i caller caller')
    (hv : w.Extends v) : Caller.Uphold v i caller caller' where
  scope := h.scope
  houses := hv.houses h.houses
  nested session hsession := h.nested session (hv.sessions ▸ hsession)
  evaluate hu hs hp := h.evaluate (hv.trans hu) hs hp
  call hu hf ho := h.call (hv.trans hu) hf ho

/-- A function with typed parameters that makes no functions but with what its caller offers. -/
def Typed.PassesOn (f : Typed E) : Prop :=
  ∀ (w : World E) (i : Nat) (caller caller' : Caller E) (args : Args E f.params f.rest),
    Caller.Uphold w i caller caller' → Args.IsWritten w i f.params f.rest args →
      Upholds w (fun v a => a.IsWritten v i) (f.run caller args) (f.run caller' args)

/-- A function outside of the language that makes no functions but with what its caller offers. -/
def Native.PassesOn : Native E → Prop
  | .typed f => f.PassesOn
  | .passThrough run => ∀ (w : World E) (i : Nat) (payloads : List (Foreign E)),
      (∀ r ∈ payloads, r.All (Function.IsWritten w i)) →
        Upholds w (fun v r => r.All (Function.IsWritten v i)) (run payloads) (run payloads)

/-- The functions of the embedder pass on what they are given. -/
def Embedding.PassesOn (E : Type) [Embedding E] : Prop :=
  ∀ e : E, (Embedding.native e).PassesOn

/-- Calls of functions that pass on what they are given. -/
theorem Typed.PassesOn.invoke {f : Typed E} (h : f.PassesOn) {caller caller' : Caller E}
    (hc : Caller.Uphold w i caller caller') {operands : List (Operand E)}
    (ho : ∀ o ∈ operands, o.IsWritten w i) :
    Upholds w (fun v a => a.IsWritten v i) (f.invoke caller operands) (f.invoke caller' operands) :=
  upholds_bind (upholds_readFrom _ _ _ 1 ho) fun _ _ hv hargs =>
    h _ _ _ _ _ (hc.extend hv) hargs

/-- Calls of functions outside of the language that pass on what they are given. -/
theorem Native.PassesOn.invoke {n : Native E} (h : n.PassesOn) {caller caller' : Caller E}
    (hc : Caller.Uphold w i caller caller') {operands : List (Operand E)}
    (ho : ∀ o ∈ operands, o.IsWritten w i) :
    Upholds w (fun v a => a.IsWritten v i) (n.invoke caller operands) (n.invoke caller' operands) := by
  cases n with
  | typed f => exact Typed.PassesOn.invoke h hc ho
  | passThrough run =>
    have hpayloads : ∀ r ∈ operands.map Operand.toForeign, r.All (Function.IsWritten w i) := by
      intro r hr
      obtain ⟨o, hmem, rfl⟩ := List.mem_map.mp hr
      exact (ho o hmem).toForeign
    refine upholds_bind (h w i _ hpayloads) fun v r _ hr => ?_
    refine upholds_bind upholds_newId fun u id hu _ => ?_
    exact upholds_pure fun x hx => ((hu.trans hx).payload hr).ensure id

/-- A function whose result depends on its arguments alone. -/
theorem Typed.passesOn_pure {params : List ParamType} {rest : Option ParamType}
    {run : Args E params rest → Except Error (Value E)}
    (h : ∀ (w : World E) (i : Nat) (args : Args E params rest) (a : Value E),
      Args.IsWritten w i params rest args → run args = .ok a → a.IsWritten w i) :
    (Typed.pure params rest run).PassesOn := by
  intro w i caller caller' args _ hargs
  exact upholds_ofExcept fun a v hok hgrows => h v i args a (hgrows.args hargs) hok

/-- Builtin operations make no functions. -/
theorem Builtin.passesOn (b : Builtin) : (b.typed : Typed E).PassesOn := by
  have hnumber : ∀ {w : World E} {i : Nat} {r : Except Error Number} {a : Value E},
      r.map Value.ofNumber = .ok a → a.IsWritten w i := by
    intro w i r a h
    cases r with
    | error e => cases h
    | ok n =>
      cases h
      exact Value.all_ofNumber _ n
  have hbool : ∀ {w : World E} {i : Nat} {r : Except Error Bool} {a : Value E},
      r.map Value.bool = .ok a → a.IsWritten w i := by
    intro w i r a h
    cases r with
    | error e => cases h
    | ok b =>
      cases h
      exact .bool b
  cases b with
  | add | mul | sub | div | floorDiv | modulo | power | max | min =>
    exact Typed.passesOn_pure fun _ _ _ _ _ h => hnumber h
  | less | lessEqual | greater | greaterEqual => exact Typed.passesOn_pure fun _ _ _ _ _ h => hbool h
  | equal | notEqual | not | and | or =>
    refine Typed.passesOn_pure fun _ _ _ _ _ h => ?_
    cases h
    exact .bool _
  | print =>
    intro w i caller caller' args _ _
    exact upholds_bind (upholds_print _) fun _ _ _ _ => upholds_pure fun _ _ => .empty

namespace HostFunction

/-- What a computation yields, if anything, has no functions in it. -/
def IsFlat (r : Except Error (Foreign E)) : Prop :=
  ∀ payload, r = .ok payload → ∀ P, payload.All P

variable {α : Type}

/-- What comes last decides. -/
theorem isFlat_bind (r : Except Error α) {f : α → Except Error (Foreign E)} (h : ∀ a, IsFlat (f a)) :
    IsFlat (r >>= f) := by
  cases r with
  | error e => exact nofun
  | ok a => exact h a

/-- A float is no function. -/
theorem isFlat_float (x : Float) : IsFlat (.ok (.float x) : Except Error (Foreign E)) := by
  intro payload h
  cases h
  exact fun _ => trivial

/-- An integer is no function. -/
theorem isFlat_int64 (n : Int64) : IsFlat (.ok (.int64 n) : Except Error (Foreign E)) := by
  intro payload h
  cases h
  exact fun _ => trivial

/-- The standard host functions yield numbers. -/
theorem isFlat_run (f : HostFunction) (payloads : List (Foreign E)) : IsFlat (f.run payloads) := by
  have hwhole : ∀ r : Except Error Int64, IsFlat (r >>= fun n => .ok (.int64 n) :
      Except Error (Foreign E)) := fun r => isFlat_bind r isFlat_int64
  have hreal : ∀ g : Float → Float, IsFlat (realFunction g payloads) := by
    intro g
    refine isFlat_bind _ fun payload => isFlat_bind _ fun x => ?_
    dsimp only
    split
    · exact nofun
    · exact isFlat_float _
  have hrounded : ∀ rounding, IsFlat (wholeFunction rounding payloads) :=
    fun _ => isFlat_bind _ fun _ => isFlat_bind _ fun _ => hwhole _
  cases f with
  | abs =>
    refine isFlat_bind _ fun payload => isFlat_bind _ fun n => ?_
    cases n with
    | int n => exact hwhole _
    | float x => exact isFlat_float _
    | complex z => exact isFlat_float _
  | round =>
    refine isFlat_bind _ fun payload => isFlat_bind _ fun n => ?_
    cases n with
    | int n => exact isFlat_int64 n
    | float x => exact hwhole _
    | complex z => exact nofun
  | float =>
    refine isFlat_bind _ fun payload => ?_
    split
    · exact isFlat_float _
    · exact isFlat_float _
    · exact isFlat_float _
    · split
      · exact isFlat_float _
      · exact nofun
    · exact nofun
  | int =>
    refine isFlat_bind _ fun payload => ?_
    split
    · exact isFlat_int64 _
    · exact hwhole _
    · exact isFlat_int64 _
    · split
      · exact isFlat_int64 _
      · exact nofun
    · exact nofun
  | sqrt | exp | log | sin | cos => exact hreal _
  | floor | ceil => exact hrounded _
/-- The standard host functions make no functions. -/
theorem passesOn (f : HostFunction) : (f.native : Native E).PassesOn := by
  intro w i payloads _
  exact upholds_ofExcept fun r v hok _ => isFlat_run f payloads r hok _

end HostFunction

/-! ## Special forms -/

/-- A function that is made of forms that can be read shows its source. -/
theorem upholds_makeFunction (keyword : String) {parameters body : Program}
    {make : List String → Body E}
    (h : ∀ v id formals, w.Extends v → parameterList parameters = .ok formals →
      Function.IsWritten v i ⟨id, some (Form.source keyword parameters body), make formals⟩) :
    Upholds w (fun v a => a.IsWritten v i) (Form.makeFunction keyword parameters body make)
      (Form.makeFunction keyword parameters body make) := by
  refine upholds_bind (Q := fun _ formals => parameterList parameters = .ok formals) ?_ ?_
  · refine upholds_ofExcept fun formals _ hok _ => ?_
    cases hlist : parameterList parameters with
    | error fault =>
      rw [hlist] at hok
      cases hok
    | ok found =>
      rw [hlist] at hok
      cases hok
      rfl
  · intro v formals hv hformals
    refine upholds_bind upholds_newId fun u id hu _ => upholds_pure fun x hx => ?_
    exact .function (h x id formals (hv.trans (hu.trans hx)) hformals)

/-- What the session reads can be read. -/
theorem upholds_parse {session : Session E} (hsession : w.sessions[i]? = some session) (text : String) :
    Upholds w (fun v p => v.CanRead i p)
      (EvalM.ofExcept ((Program.parse session.comments text).mapError .malformedProgram))
      (EvalM.ofExcept ((Program.parse session.comments text).mapError .malformedProgram)) := by
  refine upholds_ofExcept fun p v hok hv found hfound => ?_
  rw [hv.sessions, hsession] at hfound
  cases hfound
  cases hparse : Program.parse session.comments text with
  | error report =>
    rw [hparse] at hok
    cases hok
  | ok parsed =>
    rw [hparse] at hok
    cases hok
    exact Program.isReadable_of_parse hparse

/-- What is loaded can be read. -/
theorem upholds_loadSource (hs : w.Houses s i) (path : String) :
    Upholds w (fun v p => v.CanRead i p) (Form.loadSource s path) (Form.loadSource s path) := by
  refine upholds_bind (upholds_session hs) fun v session hv hsession => ?_
  refine upholds_bind (upholds_load _ path) fun u text hu _ => upholds_parse ?_ text
  rw [hu.sessions, hsession]

/-- Special forms make functions of forms that can be read. -/
theorem Form.passesOn (f : Form) : (f.typed : Typed E).PassesOn := by
  intro w i caller caller' args hc hargs
  obtain ⟨scope, evaluate, call⟩ := caller
  obtain ⟨scope', evaluate', call'⟩ := caller'
  cases hc.scope
  cases f with
  | define =>
    obtain ⟨name, form, _⟩ := args
    obtain ⟨-, hform, -⟩ := hargs
    simp only [Form.typed]
    cases symbolName? name with
    | none => exact upholds_throw _
    | some symbol =>
      refine upholds_bind (hc.evaluate (.refl w) hc.houses hform.canRead) fun v a hv ha => ?_
      refine upholds_bind (upholds_bindName (hv.houses hc.houses) symbol ha) fun u _ hu _ => ?_
      exact upholds_pure fun x hx => (hu.trans hx).value ha
  | branch =>
    obtain ⟨predicate, consequent, alternative, _⟩ := args
    obtain ⟨hpredicate, hconsequent, halternative, -⟩ := hargs
    refine upholds_bind (hc.evaluate (.refl w) hc.houses hpredicate.canRead) fun v a hv _ => ?_
    refine hc.evaluate hv (hv.houses hc.houses) (hv.canRead ?_)
    split
    · exact hconsequent.canRead
    · exact halternative.canRead
  | lambda =>
    obtain ⟨parameters, body, _⟩ := args
    obtain ⟨hparameters, hbody, -⟩ := hargs
    refine upholds_makeFunction "lambda" fun v id formals hv hformals => ⟨?_, ?_, ?_⟩
    · intro session hsession
      rw [hv.sessions] at hsession
      exact ⟨parameters, rfl, hparameters session hsession, hbody session hsession, hformals⟩
    · exact fun session hsession _ => (hc.extend hv).nested session hsession
    · intro t ht
      cases ht
      exact hv.houses hc.houses
  | template =>
    obtain ⟨parameters, body, _⟩ := args
    obtain ⟨hparameters, hbody, -⟩ := hargs
    refine upholds_makeFunction "macro" fun v id formals hv hformals => ⟨?_, ?_, ?_⟩
    · intro session hsession
      rw [hv.sessions] at hsession
      exact ⟨parameters, rfl, hparameters session hsession, hbody session hsession, hformals⟩
    · exact fun session hsession _ => (hc.extend hv).nested session hsession
    · intro t ht
      cases ht
  | load =>
    obtain ⟨path, _⟩ := args
    obtain _ | ⟨token, _ | ⟨_, _⟩⟩ := path
    · exact upholds_throw _
    · exact upholds_bind (upholds_loadSource hc.houses token.text) fun v p hv hp =>
        hc.evaluate hv (hv.houses hc.houses) hp
    · exact upholds_throw _
  | symbols =>
    refine upholds_bind (upholds_bindings hc.houses) fun v entries _ hentries => ?_
    refine upholds_bind upholds_newId fun u id hu _ => upholds_pure fun x hx => ?_
    refine .object fun found hfound entry hentry => ?_
    cases hfound
    exact (hu.trans hx).value (hentries entry hentry)

/-! ## Parts of evaluation -/

/-- Values are bound to names one after the other. -/
theorem upholds_bindAll (hs : w.Houses s i) {entries : List (String × Value E)}
    (h : ∀ entry ∈ entries, entry.2.IsWritten w i) :
    Upholds w (fun _ _ => True) (bindAll s entries) (bindAll s entries) := by
  induction entries generalizing w with
  | nil => exact upholds_pure fun _ _ => trivial
  | cons entry entries ih =>
    obtain ⟨hentry, hrest⟩ := List.forall_mem_cons.mp h
    refine upholds_bind (upholds_bindName hs entry.1 hentry) fun v _ hv _ => ?_
    exact ih (hv.houses hs) fun other hother => hv.value (hrest other hother)

/-- Evaluators that do the same and keep what was written in session `i`. -/
def UpholdEvery (i : Nat) (eval eval' : ScopeId → Program → EvalM E (Value E)) : Prop :=
  ∀ ⦃w : World E⦄ ⦃s : ScopeId⦄ ⦃p : Program⦄, w.Houses s i → w.CanRead i p →
    Upholds w (fun v a => a.IsWritten v i ∧ w.IsFree i) (eval s p) (eval' s p)

variable {eval eval' : ScopeId → Program → EvalM E (Value E)} {p : Program}

/-- What evaluators yield is as the session can have made it. -/
theorem UpholdEvery.value (he : UpholdEvery i eval eval') (hs : w.Houses s i) (hp : w.CanRead i p) :
    Upholds w (fun v a => a.IsWritten v i) (eval s p) (eval' s p) :=
  (he hs hp).mono fun _ _ _ h => h.1

/-- Operands are evaluated. -/
theorem upholds_evaluateAll (he : UpholdEvery i eval eval') (hs : w.Houses s i) {forms : List Program}
    (hforms : ∀ form ∈ forms, w.CanRead i form) :
    Upholds w (fun v operands => ∀ o ∈ operands, o.IsWritten v i) (evaluateAll eval s forms)
      (evaluateAll eval' s forms) := by
  induction forms generalizing w with
  | nil => exact upholds_pure fun _ _ => nofun
  | cons form forms ih =>
    obtain ⟨hform, hrest⟩ := List.forall_mem_cons.mp hforms
    refine upholds_bind (he.value hs hform) fun v a hv ha => ?_
    refine upholds_bind (ih (hv.houses hs) fun q hq => hv.canRead (hrest q hq)) ?_
    intro u operands hu hoperands
    refine upholds_pure fun x hx => List.forall_mem_cons.mpr ⟨(hu.trans hx).value ha, ?_⟩
    exact fun o ho => hx.operand (hoperands o ho)

/-- Forms are evaluated in turn. -/
theorem upholds_evaluateSequence (he : UpholdEvery i eval eval') (hs : w.Houses s i) {a : Value E}
    (ha : a.IsWritten w i) {forms : List Program} (hforms : ∀ form ∈ forms, w.CanRead i form) :
    Upholds w (fun v a => a.IsWritten v i) (evaluateSequence eval s a forms)
      (evaluateSequence eval' s a forms) := by
  induction forms generalizing w a with
  | nil => exact upholds_pure fun v hv => hv.value ha
  | cons form forms ih =>
    obtain ⟨hform, hrest⟩ := List.forall_mem_cons.mp hforms
    refine upholds_bind (he.value hs hform) fun v b hv hb => ?_
    exact ih (hv.houses hs) hb fun q hq => hv.canRead (hrest q hq)

/-- An operator stands for what it is bound to. -/
theorem upholds_resolveOperator (hs : w.Houses s i) {a : Value E} (ha : a.IsWritten w i) :
    Upholds w (fun v a => a.IsWritten v i) (resolveOperator s a) (resolveOperator s a) := by
  cases a with
  | symbol name => exact upholds_lookup hs name
  | _ => exact upholds_pure fun v hv => hv.value ha

/-- A single token is evaluated. -/
theorem upholds_evaluateToken (hs : w.Houses s i) (token : Token) :
    Upholds w (fun v a => a.IsWritten v i) (evaluateToken s token) (evaluateToken s token) := by
  cases token with
  | left => exact upholds_throw _
  | right => exact upholds_throw _
  | word word =>
    simp only [evaluateToken]
    cases hliteral : Value.literal? word with
    | some a => exact upholds_pure fun _ _ => Value.all_literal? _ hliteral
    | none => exact upholds_lookup hs word

/-! ## Calls -/

variable [Embedding E] {caller caller' : Caller E} {formals : List String}

/-- A closure runs in a new scope of its session. -/
theorem upholds_closure (hc : Caller.Uphold w i caller caller') {t : ScopeId} (ht : w.Houses t i)
    (hp : w.CanRead i p) {operands : List (Operand E)} (ho : ∀ o ∈ operands, o.IsWritten w i) :
    Upholds w (fun v a => a.IsWritten v i) (Body.run caller operands (.closure formals p t))
      (Body.run caller' operands (.closure formals p t)) := by
  refine upholds_bind (upholds_session ht) fun v _ hv _ => ?_
  refine upholds_bind (upholds_child (hv.houses ht)) fun u inner hu hinner => ?_
  have hvu := hv.trans hu
  refine upholds_bind (upholds_readRest .value 1 fun o hmem => hvu.operand (ho o hmem)) ?_
  intro x values hx hvalues
  refine upholds_bind (upholds_bindAll (hx.houses hinner) fun entry hentry => ?_) fun y _ hy _ => ?_
  · exact hvalues entry.2 (List.of_mem_zip hentry).2
  · have hgrows := hvu.trans (hx.trans hy)
    exact hc.evaluate hgrows (hy.houses (hx.houses hinner)) (hgrows.canRead hp)

/-- A template is filled in with forms that can be read, and the result can be read. -/
theorem upholds_template (hc : Caller.Uphold w i caller caller') (hp : w.CanRead i p)
    {operands : List (Operand E)} (ho : ∀ o ∈ operands, o.IsWritten w i) :
    Upholds w (fun v a => a.IsWritten v i) (Body.run caller operands (.template formals p))
      (Body.run caller' operands (.template formals p)) := by
  refine upholds_bind (upholds_readRest .program 1 ho) fun v programs hv hprograms => ?_
  rw [hc.scope]
  refine hc.evaluate hv (hv.houses hc.houses) fun session hsession => ?_
  refine Program.IsReadable.substitute (hv.canRead hp session hsession) fun q hq => ?_
  exact (hprograms q hq session hsession).isReadable

/-- Running the body of a function. -/
theorem upholds_body (hE : Embedding.PassesOn E) (hc : Caller.Uphold w i caller caller')
    {f : Function E} (hf : f.IsWritten w i) {operands : List (Operand E)}
    (ho : ∀ o ∈ operands, o.IsWritten w i) :
    Upholds w (fun v a => a.IsWritten v i) (f.body.run caller operands)
      (f.body.run caller' operands) := by
  obtain ⟨id, label, body⟩ := f
  cases body with
  | form form => exact form.passesOn.invoke hc ho
  | builtin b => exact b.passesOn.invoke hc ho
  | host g => exact g.passesOn.invoke hc ho
  | embedded e => exact (hE e).invoke hc ho
  | closure formals p t =>
    refine upholds_closure hc (hf.houses t rfl) (fun session hsession => ?_) ho
    obtain ⟨-, -, -, hbody, -⟩ := hf.source session hsession
    exact hbody.isReadable
  | template formals p =>
    refine upholds_template hc (fun session hsession => ?_) ho
    obtain ⟨-, -, -, hbody, -⟩ := hf.source session hsession
    exact hbody.isReadable

/-- Calls, where two evaluations can be nested. -/
theorem upholds_callWithin (hE : Embedding.PassesOn E) (he : UpholdEvery i eval eval')
    (hs : w.Houses s i) (hnested : ∀ session, w.sessions[i]? = some session → 2 ≤ session.maxDepth)
    (nesting : Nat) {f : Function E} (hf : f.IsWritten w i) {operands : List (Operand E)}
    (ho : ∀ o ∈ operands, o.IsWritten w i) :
    Upholds w (fun v a => a.IsWritten v i) (f.callWithin eval s nesting operands)
      (f.callWithin eval' s nesting operands) := by
  -- Functions of the embedder may call on, each time with one call less to come.
  induction nesting generalizing w f operands with
  | zero => exact upholds_throw _
  | succ nesting ih =>
    have hc : Caller.Uphold w i ⟨s, eval, Function.callWithin eval s nesting⟩
        ⟨s, eval', Function.callWithin eval' s nesting⟩ :=
      { scope := rfl
        houses := hs
        nested := hnested
        evaluate := fun _ hs hp => he.value hs hp
        call := fun hv hf ho =>
          ih (hv.houses hs) (fun session hsession => hnested session (hv.sessions ▸ hsession)) hf ho }
    refine upholds_bind (Q := fun v adapted => ∀ o ∈ adapted, o.IsWritten v i) ?_ ?_
    · exact upholds_ofExcept fun adapted v hok hv =>
        isWritten_of_adapt (fun o hmem => hv.operand (ho o hmem)) hok
    · exact fun v adapted hv hadapted => upholds_body hE (hc.extend hv) (hv.function hf) hadapted

/-! ## Evaluation -/

/-- A combination is evaluated. If its operator has a value, then two evaluations can be nested. -/
theorem upholds_evaluateCombination (hE : Embedding.PassesOn E) (he : UpholdEvery i eval eval')
    (hs : w.Houses s i) (hdeep : w.IsDeep i) {forms : List Program}
    (hforms : ∀ form ∈ forms, w.CanReadPart i form) :
    Upholds w (fun v a => a.IsWritten v i) (evaluateCombination eval s forms)
      (evaluateCombination eval' s forms) := by
  have hread : ∀ form ∈ forms, w.CanRead i form := fun form hform => (hforms form hform).canRead
  cases forms with
  | nil => exact upholds_throw _
  | cons operator operands =>
    obtain ⟨hoperator, hoperands⟩ := List.forall_mem_cons.mp hread
    refine upholds_bind (he hs hoperator) fun v a hv ⟨ha, hfree⟩ => ?_
    -- The operator was evaluated a level below this one, so the session allows both.
    have hnested : ∀ session, w.sessions[i]? = some session → 2 ≤ session.maxDepth := by
      intro session hsession
      obtain ⟨found, hfound, hdepth⟩ := hfree
      obtain ⟨deep, hdeep, hunder⟩ := hdeep
      cases hfound.symm.trans hsession
      cases hdeep.symm.trans hsession
      omega
    refine upholds_bind (upholds_resolveOperator (hv.houses hs) ha) fun u b hu hb => ?_
    cases b with
    | function f =>
      have hf : f.IsWritten u i := by
        cases hb with
        | function hf => exact hf
      have hcall : ∀ x arguments, u.Extends x → (∀ o ∈ arguments, o.IsWritten x i) →
          Upholds x (fun v a => a.IsWritten v i) (f.callWithin eval s (Embedding.directCalls E + 1) arguments)
            (f.callWithin eval' s (Embedding.directCalls E + 1) arguments) := by
        intro x arguments hx harguments
        have hgrows := hv.trans (hu.trans hx)
        refine upholds_callWithin hE he (hgrows.houses hs) ?_ _ (hx.function hf) harguments
        exact fun session hsession => hnested session (hgrows.sessions ▸ hsession)
      dsimp only
      split
      · refine upholds_bind (upholds_pure fun x hx o ho => ?_) hcall
        obtain ⟨q, hq, rfl⟩ := List.mem_map.mp ho
        exact (hv.trans (hu.trans hx)).canReadPart (hforms q (List.mem_cons_of_mem operator hq))
      · have hgrows := hv.trans hu
        exact upholds_bind (upholds_evaluateAll he (hgrows.houses hs)
          fun q hq => hgrows.canRead (hoperands q hq)) hcall
    | _ => exact upholds_throw _

/-- One evaluation, in terms of the evaluations nested in it. -/
theorem upholds_step (hE : Embedding.PassesOn E) (he : UpholdEvery i eval eval') (hs : w.Houses s i)
    (hdeep : w.IsDeep i) (hp : w.CanRead i p) :
    Upholds w (fun v a => a.IsWritten v i) (step eval s p) (step eval' s p) := by
  have hparts : ∀ q ∈ p.split, w.CanReadPart i q :=
    fun q hq session hsession => (hp session hsession).isPart_of_mem_split hq
  match p with
  | [] => exact upholds_pure fun _ _ => .empty
  | [token] => exact upholds_evaluateToken hs token
  | a :: b :: rest =>
    simp only [step]
    split
    · exact upholds_evaluateCombination hE he hs hdeep hparts
    · refine upholds_bind (Q := fun _ _ => True) (upholds_ofExcept fun _ _ _ _ => trivial) ?_
      intro v _ hv _
      exact upholds_evaluateSequence he (hv.houses hs) .empty fun q hq =>
        hv.canRead (hparts q hq).canRead

end FlatLisp
