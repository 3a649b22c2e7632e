import FlatLisp.Embed.Sample
import FlatLisp.Proofs.Simulation.Operand
import Mathlib.Data.Nat.Find
import Mathlib.Data.Set.List

/-!
# Adapted calls

A typed function gets its operands in two stages. Its signature checks them and replaces values by
payloads; then its parameters read them one by one and check them again. The two stages agree: what
the signature lets pass, the parameters read, and they read back what was passed.

`ParamType.toOperand` says what is passed for a payload, without any check. An operand is of the kind
that a parameter requires if it is passed for some payload (`ParamType.Takes`).
-/

namespace FlatLisp

variable {E : Type}

/-! ## One parameter -/

namespace ParamType

/-- What is passed for a payload. -/
def toOperand : (type : ParamType) → type.Carrier E → Operand E
  | value, v => .value v
  | program, p => .program p
  | bool, b => .value (.bool b)
  | int, n => .value (.int n)
  | float, x => .value (.float x)
  | complex, z => .value (.complex z)
  | number, n => .value (.ofNumber n)
  | symbol, text => .value (.symbol text)
  | function, f => .value (.function f)
  | object, o => .value (.object o)

/-- Whether an operand is of the kind that a parameter requires. -/
def Takes (type : ParamType) (operand : Operand E) : Prop :=
  ∃ payload, type.toOperand payload = operand

/-- What the signature makes of what is passed for a payload. -/
def adapted (type : ParamType) (payload : type.Carrier E) : Operand E :=
  if type.spec.flatten then (type.toOperand payload).flatten else type.toOperand payload

/-- Different payloads are passed differently. -/
theorem toOperand_injective (type : ParamType) :
    Function.Injective (type.toOperand : type.Carrier E → Operand E) := by
  intro a b h
  cases type with
  | number => cases a <;> cases b <;> cases h <;> rfl
  | _ => cases h; rfl

/-- The signature lets pass what is passed for a payload. -/
theorem accepts_toOperand (type : ParamType) (payload : type.Carrier E) :
    type.spec.accepts (type.toOperand payload) = true := by
  cases type with
  | number => cases payload <;> rfl
  | _ => rfl

/-- The signature brings what is passed for a payload into the form that the parameter reads. -/
theorem adapt_toOperand (type : ParamType) (payload : type.Carrier E) (position : Nat) :
    type.spec.adapt (type.toOperand payload) position = .ok (type.adapted payload) := by
  rw [ParamSpec.adapt, if_pos (type.accepts_toOperand payload), adapted]

/-- A value that the signature lets pass is of the required kind. -/
theorem takes_value_of_accepts {type : ParamType} {v : Value E}
    (h : type.spec.accepts (.value v) = true) : type.Takes (.value v) := by
  cases type with
  | value => exact ⟨v, rfl⟩
  | program => cases v <;> cases h
  | number =>
    cases v with
    | int n => exact ⟨.int n, rfl⟩
    | float x => exact ⟨.float x, rfl⟩
    | complex z => exact ⟨.complex z, rfl⟩
    | _ => cases h
  | _ =>
    cases v <;> first
      | exact ⟨_, rfl⟩
      | cases h

/-- A value passes exactly if it is of the required kind. -/
theorem accepts_value_iff (type : ParamType) (v : Value E) :
    type.spec.accepts (.value v) = true ↔ type.Takes (.value v) := by
  refine ⟨takes_value_of_accepts, fun h => ?_⟩
  obtain ⟨payload, hpayload⟩ := h
  rw [← hpayload]
  exact type.accepts_toOperand payload

/-- A parameter reads back the payload, whatever the world. -/
theorem read_adapted (type : ParamType) (payload : type.Carrier E) (position : Nat) (w : World E) :
    ∃ k, type.read (type.adapted payload) position w =
      (.ok payload, { w with nextId := w.nextId + k }) := by
  cases type with
  | value | program => exact ⟨0, rfl⟩
  | number => cases payload <;> exact ⟨1, rfl⟩
  | _ => exact ⟨1, rfl⟩

end ParamType

/-! ## All parameters -/

namespace Args

/-- What is passed for arguments. -/
def toOperands : (types : List ParamType) → (rest : Option ParamType) → Args E types rest →
    List (Operand E)
  | [], none, _ => []
  | [], some type, payloads => payloads.map type.toOperand
  | type :: types, rest, args => type.toOperand args.1 :: toOperands types rest args.2

/-- What the signature makes of what is passed for arguments. -/
def adapted : (types : List ParamType) → (rest : Option ParamType) → Args E types rest →
    List (Operand E)
  | [], none, _ => []
  | [], some type, payloads => payloads.map type.adapted
  | type :: types, rest, args => type.adapted args.1 :: adapted types rest args.2

/-- Different arguments are passed differently. -/
theorem toOperands_injective (types : List ParamType) (rest : Option ParamType) :
    Function.Injective (toOperands types rest : Args E types rest → List (Operand E)) := by
  induction types with
  | nil =>
    cases rest with
    | none => exact fun _ _ _ => rfl
    | some type => exact List.map_injective_iff.mpr type.toOperand_injective
  | cons type types ih =>
    intro a b h
    obtain ⟨hfirst, hothers⟩ := List.cons.inj h
    exact Prod.ext (type.toOperand_injective hfirst) (ih hothers)

/-- The signature lets pass what is passed for further arguments. -/
theorem adaptFrom_map_toOperand (type : ParamType) (position : Nat)
    (payloads : List (type.Carrier E)) :
    Signature.adaptFrom (some type.spec) position [] (payloads.map type.toOperand) =
      .ok (payloads.map type.adapted) := by
  induction payloads generalizing position with
  | nil => rfl
  | cons payload payloads ih =>
    simp only [List.map_cons, Signature.adaptFrom, Option.getD_some, type.adapt_toOperand, ih]
    rfl

/-- The signature lets pass what is passed for arguments. -/
theorem adaptFrom_toOperands (types : List ParamType) (rest : Option ParamType) (position : Nat)
    (args : Args E types rest) :
    Signature.adaptFrom (rest.map ParamType.spec) position (types.map ParamType.spec)
      (toOperands types rest args) = .ok (adapted types rest args) := by
  induction types generalizing position with
  | nil =>
    cases rest with
    | none => rfl
    | some type => exact adaptFrom_map_toOperand type position args
  | cons type types ih =>
    simp only [List.map_cons, toOperands, adapted, Signature.adaptFrom, type.adapt_toOperand, ih]
    rfl

/-- Parameters of one type read back the payloads. -/
theorem readRest_map_adapted (type : ParamType) (position : Nat) (payloads : List (type.Carrier E))
    (w : World E) :
    ∃ k, readRest type position (payloads.map type.adapted) w =
      (.ok payloads, { w with nextId := w.nextId + k }) := by
  induction payloads generalizing position w with
  | nil => exact ⟨0, rfl⟩
  | cons payload payloads ih =>
    obtain ⟨k, hfirst⟩ := type.read_adapted payload position w
    obtain ⟨l, hrest⟩ := ih (position + 1) { w with nextId := w.nextId + k }
    refine ⟨k + l, ?_⟩
    rw [List.map_cons, readRest, Correspondence.run_bind_ok _ hfirst,
      Correspondence.run_bind_ok _ hrest, ← Nat.add_assoc]
    rfl

/-- The parameters of a function read back the arguments. -/
theorem readFrom_adapted (missing : Error) (types : List ParamType) (rest : Option ParamType)
    (position : Nat) (args : Args E types rest) (w : World E) :
    ∃ k, readFrom missing types rest position (adapted types rest args) w =
      (.ok args, { w with nextId := w.nextId + k }) := by
  induction types generalizing position w with
  | nil =>
    cases rest with
    | none => exact ⟨0, rfl⟩
    | some type => exact readRest_map_adapted type position args w
  | cons type types ih =>
    obtain ⟨k, hfirst⟩ := type.read_adapted args.1 position w
    obtain ⟨l, hothers⟩ := ih (position + 1) args.2 { w with nextId := w.nextId + k }
    refine ⟨k + l, ?_⟩
    rw [adapted, readFrom, Correspondence.run_bind_ok _ hfirst,
      Correspondence.run_bind_ok _ hothers, ← Nat.add_assoc]
    rfl

end Args

namespace Args

/-- Operands of the required kinds, as many as are required, are passed for arguments. -/
theorem exists_toOperands {types : List ParamType} {rest : Option ParamType}
    {operands : List (Operand E)}
    (hcount : types.length ≤ operands.length ∧ (rest = none → operands.length = types.length))
    (htakes : ∀ (i : Nat) type operand, (types[i]?).or rest = some type → operands[i]? = some operand →
      type.Takes operand) :
    ∃ args, toOperands types rest args = operands := by
  induction types generalizing operands with
  | nil =>
    cases rest with
    | none =>
      have hnil : operands = [] := List.eq_nil_of_length_eq_zero (hcount.2 rfl)
      exact ⟨(), hnil.symm⟩
    | some type =>
      have hall : operands ∈ {os : List (Operand E) | ∀ o ∈ os, o ∈ Set.range type.toOperand} := by
        intro operand hoperand
        obtain ⟨i, hi⟩ := List.mem_iff_getElem?.mp hoperand
        exact htakes i type operand rfl hi
      rw [← Set.range_list_map] at hall
      exact hall
  | cons type types ih =>
    cases operands with
    | nil => exact absurd hcount.1 (Nat.not_succ_le_zero _)
    | cons operand operands =>
      have hcount' : types.length ≤ operands.length ∧
          (rest = none → operands.length = types.length) :=
        ⟨Nat.le_of_succ_le_succ hcount.1, fun h => Nat.succ.inj (hcount.2 h)⟩
      obtain ⟨payload, hpayload⟩ := htakes 0 type operand rfl rfl
      obtain ⟨args, hargs⟩ := ih hcount' fun i => htakes (i + 1)
      exact ⟨(payload, args), congrArg₂ List.cons hpayload hargs⟩

end Args

namespace Signature

/-- The requirement on the argument at an index: that of a fixed parameter, or else that on further
arguments. -/
def specAt (variadic : Option ParamSpec) (specs : List ParamSpec) (i : Nat) : ParamSpec :=
  ((specs[i]?).or variadic).getD .any

/-- One operand is checked at a time, each against its own requirement. -/
theorem adaptFrom_cons (variadic : Option ParamSpec) (specs : List ParamSpec) (position : Nat)
    (operand : Operand E) (operands : List (Operand E)) :
    adaptFrom variadic position specs (operand :: operands) = (do
      let first ← (specAt variadic specs 0).adapt operand position
      let rest ← adaptFrom variadic (position + 1) specs.tail operands
      return first :: rest) := by
  cases specs <;> rfl

/-- The first operand that does not meet its requirement is the one that the signature refuses. -/
theorem adaptFrom_of_refused {variadic : Option ParamSpec} {specs : List ParamSpec}
    {operands : List (Operand E)} {i : Nat} {operand : Operand E} (position : Nat)
    (hoperand : operands[i]? = some operand)
    (hrefused : (specAt variadic specs i).accepts operand = false)
    (hbefore : ∀ j < i, ∀ earlier, operands[j]? = some earlier →
      (specAt variadic specs j).accepts earlier = true) :
    adaptFrom variadic position specs operands = .error
      (.typeMismatch (position + i) (specAt variadic specs i).expected operand.kindName) := by
  induction i generalizing position specs operands with
  | zero =>
    cases operands with
    | nil => cases hoperand
    | cons first operands =>
      cases hoperand
      rw [adaptFrom_cons, ParamSpec.adapt, if_neg (Bool.eq_false_iff.mp hrefused)]
      rfl
  | succ i ih =>
    cases operands with
    | nil => cases hoperand
    | cons first operands =>
      have htail : ∀ j, specAt variadic specs.tail j = specAt variadic specs (j + 1) := by
        intro j
        rw [specAt, specAt, List.getElem?_tail]
      have hfirst := hbefore 0 (Nat.succ_pos i) first rfl
      have hlater : ∀ j < i, ∀ earlier, operands[j]? = some earlier →
          (specAt variadic specs.tail j).accepts earlier = true := by
        intro j hj
        rw [htail]
        exact hbefore (j + 1) (Nat.succ_lt_succ hj)
      have hrest := ih (position + 1) hoperand ((htail i).symm ▸ hrefused) hlater
      rw [adaptFrom_cons, ParamSpec.adapt, if_pos hfirst, hrest, htail, Nat.add_assoc,
        Nat.add_comm 1]
      rfl

end Signature

/-! ## Typed functions -/

/-- Operands as evaluation passes them: programs to a lazy function, values to any other. -/
def Signature.Suits (signature : Signature) (operands : List (Operand E)) : Prop :=
  ∀ operand ∈ operands,
    if signature.isLazy then ∃ p, operand = .program p else ∃ v, operand = .value v

namespace Typed

variable {f : Typed E} {signature : Signature} {operands : List (Operand E)}

/-- The type of the parameter that the argument at an index is for. -/
def typeAt? (f : Typed E) (i : Nat) : Option ParamType :=
  (f.params[i]?).or f.rest

/-- Every operand is of the kind that its parameter requires. -/
def TakesAll (f : Typed E) (operands : List (Operand E)) : Prop :=
  ∀ i type operand, f.typeAt? i = some type → operands[i]? = some operand → type.Takes operand

/-- The operand at an index is the first that is not of the kind that its parameter requires. -/
structure FirstMismatch (f : Typed E) (operands : List (Operand E)) (i : Nat) (type : ParamType)
    (operand : Operand E) : Prop where
  typeAt : f.typeAt? i = some type
  operandAt : operands[i]? = some operand
  refused : ¬type.Takes operand
  least : ∀ j < i, ∀ type operand, f.typeAt? j = some type → operands[j]? = some operand →
    type.Takes operand

/-- The requirement of a parameter is that of its type. -/
theorem specAt_eq (f : Typed E) (i : Nat) :
    Signature.specAt (f.rest.map ParamType.spec) (f.params.map ParamType.spec) i =
      ((f.typeAt? i).map ParamType.spec).getD .any := by
  rw [Signature.specAt, List.getElem?_map, typeAt?, Option.map_or]

/-- A count of arguments is right if the fixed parameters are covered, and exactly so unless there
may be further arguments. -/
theorem accepts_arity_iff (f : Typed E) (count : Nat) :
    f.arity.accepts count = true ↔
      f.params.length ≤ count ∧ (f.rest = none → count = f.params.length) := by
  unfold arity
  cases f.rest <;> simp [Arity.accepts]
  omega

/-- The type of a parameter that takes an argument is the type of a parameter. -/
theorem spec_mem_of_typeAt? {i : Nat} {type : ParamType} (h : f.typeAt? i = some type) :
    type.spec ∈ f.params.map ParamType.spec ++ (f.rest.map ParamType.spec).toList := by
  rcases Option.or_eq_some_iff.mp h with hfixed | ⟨-, hrest⟩
  · exact List.mem_append_left _ (List.mem_map_of_mem (List.mem_of_getElem? hfixed))
  · rw [hrest]
    exact List.mem_append_right _ (List.mem_singleton.mpr rfl)

/-- A signature that could be inferred is the one that follows from the types, and if it is lazy
then all parameters take programs. -/
theorem of_checkedSignature (h : f.checkedSignature = .ok signature) :
    signature = f.signature ∧
      (signature.isLazy = true → ∀ i type, f.typeAt? i = some type → type = .program) := by
  unfold checkedSignature Signature.infer at h
  dsimp only at h
  split at h
  · cases h
  · next hcount =>
    cases h
    refine ⟨rfl, fun hlazy i type htype => ?_⟩
    obtain ⟨spec, hspec, hprogram⟩ := List.any_eq_true.mp hlazy
    have hsome := List.countP_pos_iff.mpr ⟨spec, hspec, hprogram⟩
    have hall := List.countP_eq_length.mp
      (Decidable.byContradiction fun hne => hcount ⟨Nat.ne_of_gt hsome, hne⟩)
    have htype := hall _ (spec_mem_of_typeAt? htype)
    cases type with
    | program => rfl
    | _ => cases htype

/-- An operand as evaluation passes it meets its requirement exactly if it is of the right kind. -/
theorem accepts_iff (h : f.checkedSignature = .ok signature) (hsuits : signature.Suits operands)
    {i : Nat} {type : ParamType} {operand : Operand E} (htype : f.typeAt? i = some type)
    (hoperand : operands[i]? = some operand) :
    type.spec.accepts operand = true ↔ type.Takes operand := by
  have hform := hsuits operand (List.mem_of_getElem? hoperand)
  split at hform
  · next hlazy =>
    obtain ⟨p, rfl⟩ := hform
    rw [(of_checkedSignature h).2 hlazy i type htype]
    exact ⟨fun _ => ⟨p, rfl⟩, fun _ => rfl⟩
  · obtain ⟨v, rfl⟩ := hform
    exact type.accepts_value_iff v

/-- The signature asks for as many arguments as the types say. -/
theorem arity?_signature (f : Typed E) : f.signature.arity? = some f.arity := by
  simp [signature, Signature.arity?, Signature.ofParams, arity]

/-- The signature counts the operands first, and then checks them one by one. -/
theorem adapt_signature (f : Typed E) (operands : List (Operand E)) :
    f.signature.adapt operands =
      if f.arity.accepts operands.length then
        Signature.adaptFrom (f.rest.map ParamType.spec) 1 (f.params.map ParamType.spec) operands
      else .error (.arityMismatch f.arity operands.length) := by
  rw [Signature.adapt, arity?_signature]
  rfl

/-- The first operand of a wrong kind is the one that is refused. -/
theorem adapt_of_firstMismatch (h : f.checkedSignature = .ok signature)
    (hsuits : signature.Suits operands) (hcount : f.arity.accepts operands.length = true) {i : Nat}
    {type : ParamType} {operand : Operand E} (hfirst : f.FirstMismatch operands i type operand) :
    f.signature.adapt operands =
      .error (.typeMismatch (i + 1) type.spec.expected operand.kindName) := by
  have hspec : Signature.specAt (f.rest.map ParamType.spec) (f.params.map ParamType.spec) i =
      type.spec := by
    rw [specAt_eq, hfirst.typeAt]
    rfl
  have hrefused := mt (accepts_iff h hsuits hfirst.typeAt hfirst.operandAt).mp hfirst.refused
  have hbefore : ∀ j < i, ∀ earlier, operands[j]? = some earlier → (Signature.specAt
      (f.rest.map ParamType.spec) (f.params.map ParamType.spec) j).accepts earlier = true := by
    intro j hj earlier hearlier
    rw [specAt_eq]
    cases htype : f.typeAt? j with
    | none => rfl
    | some type =>
      exact (accepts_iff h hsuits htype hearlier).mpr
        (hfirst.least j hj type earlier htype hearlier)
  rw [adapt_signature, if_pos hcount, Signature.adaptFrom_of_refused 1 hfirst.operandAt
    (by rw [hspec, Bool.eq_false_iff]; exact hrefused) hbefore, hspec, Nat.add_comm]

/-- Operands of the right kinds are passed for arguments, which the signature lets pass. -/
theorem adapt_of_takesAll (hcount : f.arity.accepts operands.length = true)
    (htakes : f.TakesAll operands) :
    ∃ args, Args.toOperands f.params f.rest args = operands ∧
      f.signature.adapt operands = .ok (Args.adapted f.params f.rest args) := by
  obtain ⟨args, rfl⟩ := Args.exists_toOperands ((f.accepts_arity_iff _).mp hcount) htakes
  refine ⟨args, rfl, ?_⟩
  rw [adapt_signature, if_pos hcount, Args.adaptFrom_toOperands]

/-- Some operand is the first of a wrong kind unless all are of the right kinds. -/
theorem exists_firstMismatch (h : ¬f.TakesAll operands) :
    ∃ i type operand, f.FirstMismatch operands i type operand := by
  classical
  have hsome : ∃ i, ∃ type operand, f.typeAt? i = some type ∧ operands[i]? = some operand ∧
      ¬type.Takes operand := by
    simpa [TakesAll] using h
  obtain ⟨type, operand, htype, hoperand, hrefused⟩ := Nat.find_spec hsome
  refine ⟨Nat.find hsome, type, operand, htype, hoperand, hrefused, ?_⟩
  intro j hj type operand htype hoperand
  exact Decidable.byContradiction fun hno =>
    Nat.find_min hsome hj ⟨type, operand, htype, hoperand, hno⟩

/-- What the signature lets pass was passed for arguments. -/
theorem exists_args_of_adapt (h : f.checkedSignature = .ok signature)
    (hsuits : signature.Suits operands) {passed : List (Operand E)}
    (hpassed : f.signature.adapt operands = .ok passed) :
    ∃ args, Args.toOperands f.params f.rest args = operands ∧
      passed = Args.adapted f.params f.rest args := by
  have hcount : f.arity.accepts operands.length = true := by
    refine Bool.not_eq_false _ |>.mp fun hno => ?_
    rw [adapt_signature, hno] at hpassed
    cases hpassed
  have htakes : f.TakesAll operands := by
    refine Classical.byContradiction fun hno => ?_
    obtain ⟨i, type, operand, hfirst⟩ := exists_firstMismatch hno
    rw [adapt_of_firstMismatch h hsuits hcount hfirst] at hpassed
    cases hpassed
  obtain ⟨args, hargs, hadapted⟩ := adapt_of_takesAll hcount htakes
  exact ⟨args, hargs, Except.ok.inj (hpassed.symm.trans hadapted)⟩

end Typed

/-! ## Calls -/

variable [Embedding E]

/-- The typed function that a body stands for, if it is one. -/
def Body.typed? : Body E → Option (Typed E)
  | .form f => some f.typed
  | .builtin b => some b.typed
  | .embedded e =>
    match Embedding.native e with
    | .typed f => some f
    | .passThrough _ => none
  | .host _ | .closure .. | .template .. => none

/-- What a function may ask for that is called from a scope. -/
def Caller.of (w : World E) (s : ScopeId) : Caller E :=
  ⟨s, evaluateWithin w.budget, Function.callWithin (evaluateWithin w.budget) s (Embedding.directCalls E)⟩

/-- A typed function is called by way of the signature that follows from its types. -/
theorem Function.call_eq_of_typed? {body : Body E} {f : Typed E} (h : body.typed? = some f)
    (id : Nat) (label : Option String) (s : ScopeId) (operands : List (Operand E)) (w : World E) :
    Function.call ⟨id, label, body⟩ s operands w =
      match f.signature.adapt operands with
      | .error e => (.error e, w)
      | .ok passed => f.invoke (.of w s) passed w := by
  have hbody : body.signature = f.signature ∧
      ∀ caller passed, body.run caller passed = f.invoke caller passed := by
    cases body with
    | form _ | builtin _ =>
      cases h
      exact ⟨rfl, fun _ _ => rfl⟩
    | embedded e =>
      simp only [Body.typed?] at h
      split at h
      · next hnative =>
        cases h
        simp only [Body.signature, Body.run, hnative]
        exact ⟨rfl, fun _ _ => rfl⟩
      · cases h
    | host _ | closure _ _ _ | template _ _ => cases h
  change (EvalM.ofExcept (body.signature.adapt operands) >>= fun passed =>
    body.run (.of w s) passed) w = _
  rw [hbody.1]
  simp only [hbody.2]
  cases f.signature.adapt operands <;> rfl

/-- The check of the operands and the reading of the arguments agree. Take any function that is
declared by the types of its parameters, if these go together, and any operands as evaluation passes
them. If their number is wrong, and only then, the call is refused for that. Otherwise, if some are
not of the kind that their parameter requires, the call is refused for the first of these, with its
position, the kind required and the kind found. Otherwise the function runs on the only arguments for
which these operands are passed. And whatever passes the check, the parameters read it. -/
theorem call_typed {body : Body E} {f : Typed E} (hf : body.typed? = some f) {signature : Signature}
    (hinferred : f.checkedSignature = .ok signature) {operands : List (Operand E)}
    (hsuits : signature.Suits operands) (id : Nat) (label : Option String) (s : ScopeId)
    (w : World E) :
    signature.arity? = some f.arity ∧
    (signature.adapt operands = .error (.arityMismatch f.arity operands.length) ↔
      f.arity.accepts operands.length = false) ∧
    (f.arity.accepts operands.length = false → Function.call ⟨id, label, body⟩ s operands w =
      (.error (.arityMismatch f.arity operands.length), w)) ∧
    (f.arity.accepts operands.length = true → ∀ i type operand,
      f.FirstMismatch operands i type operand → Function.call ⟨id, label, body⟩ s operands w =
        (.error (.typeMismatch (i + 1) type.spec.expected operand.kindName), w)) ∧
    (f.arity.accepts operands.length = true → f.TakesAll operands →
      ∃ args, (∀ other, Args.toOperands f.params f.rest other = operands ↔ other = args) ∧
        ∃ k, Function.call ⟨id, label, body⟩ s operands w =
          f.run (.of w s) args { w with nextId := w.nextId + k }) ∧
    ∀ passed, signature.adapt operands = .ok passed → ∀ missing v, ∃ args,
      (Args.readFrom missing f.params f.rest 1 passed v).1 = .ok args := by
  obtain ⟨rfl, -⟩ := Typed.of_checkedSignature hinferred
  simp only [Function.call_eq_of_typed? hf]
  refine ⟨f.arity?_signature, ⟨fun hrefused => ?_, fun hcount => ?_⟩, fun hcount => ?_,
    fun hcount i type operand hfirst => ?_, fun hcount htakes => ?_,
    fun passed hpassed missing v => ?_⟩
  · refine Bool.not_eq_true _ |>.mp fun hcount => ?_
    by_cases htakes : f.TakesAll operands
    · obtain ⟨args, -, hadapted⟩ := Typed.adapt_of_takesAll hcount htakes
      cases hrefused.symm.trans hadapted
    · obtain ⟨i, type, operand, hfirst⟩ := Typed.exists_firstMismatch htakes
      cases hrefused.symm.trans (Typed.adapt_of_firstMismatch hinferred hsuits hcount hfirst)
  · rw [Typed.adapt_signature, hcount]
    rfl
  · rw [Typed.adapt_signature, hcount]
    rfl
  · rw [Typed.adapt_of_firstMismatch hinferred hsuits hcount hfirst]
  · obtain ⟨args, hargs, hadapted⟩ := Typed.adapt_of_takesAll hcount htakes
    refine ⟨args, fun other => ?_, ?_⟩
    · rw [← hargs]
      exact (Args.toOperands_injective f.params f.rest).eq_iff
    · obtain ⟨k, hread⟩ := Args.readFrom_adapted
        (.arityMismatch f.arity (Args.adapted f.params f.rest args).length) f.params f.rest 1 args w
      refine ⟨k, ?_⟩
      simp only [hadapted, Typed.invoke]
      rw [Correspondence.run_bind_ok _ hread]
  · obtain ⟨args, -, rfl⟩ := Typed.exists_args_of_adapt hinferred hsuits hpassed
    obtain ⟨k, hread⟩ := Args.readFrom_adapted missing f.params f.rest 1 args v
    exact ⟨args, congrArg Prod.fst hread⟩

/-- A function of an integer and any number of numbers refuses a symbol at the third place, and runs
on an integer and a float as they are. -/
theorem call_typed_countNumbers :
    let f : Function Embed.Sample := ⟨0, none, .embedded (.typed .countNumbers)⟩
    (f.call 0 [.value (.int 1), .value (.float 2.5), .value (.symbol "x")] World.empty).1 =
        .error (.typeMismatch 3 "Number" "Symbol") ∧
      ∃ k, f.call 0 [.value (.int 1), .value (.float 2.5)] World.empty =
        Embed.TypedSample.countNumbers.typed.run (.of World.empty 0) (1, [.float 2.5])
          { World.empty with nextId := k } := by
  have hbody : (Body.embedded (.typed .countNumbers) : Body Embed.Sample).typed? =
      some Embed.TypedSample.countNumbers.typed := rfl
  have hsuits : ∀ vs : List (Value Embed.Sample),
      (Embed.TypedSample.countNumbers.typed.signature).Suits (vs.map Operand.value) := by
    intro vs operand hoperand
    obtain ⟨v, -, rfl⟩ := List.mem_map.mp hoperand
    exact ⟨v, rfl⟩
  constructor
  · have hfirst : Embed.TypedSample.countNumbers.typed.FirstMismatch
        [.value (.int 1), .value (.float 2.5), .value (.symbol "x")] 2 .number
        (.value (.symbol "x")) := by
      refine ⟨rfl, rfl, ?_, ?_⟩
      · rintro ⟨n, hn⟩
        cases n <;> cases hn
      · intro j hj type operand htype hoperand
        match j with
        | 0 =>
          cases htype
          cases hoperand
          exact ⟨1, rfl⟩
        | 1 =>
          cases htype
          cases hoperand
          exact ⟨.float 2.5, rfl⟩
    have hcall := (call_typed hbody rfl (hsuits [.int 1, .float 2.5, .symbol "x"]) 0 none 0
      World.empty).2.2.2.1 rfl 2 .number (.value (.symbol "x")) hfirst
    exact congrArg Prod.fst hcall
  · have htakes : Embed.TypedSample.countNumbers.typed.TakesAll
        [.value (.int 1), .value (.float 2.5)] := by
      intro j type operand htype hoperand
      match j with
      | 0 =>
        cases htype
        cases hoperand
        exact ⟨1, rfl⟩
      | 1 =>
        cases htype
        cases hoperand
        exact ⟨.float 2.5, rfl⟩
      | _ + 2 => cases hoperand
    obtain ⟨args, hargs, k, hcall⟩ := (call_typed hbody rfl (hsuits [.int 1, .float 2.5]) 0
      none 0 World.empty).2.2.2.2.1 rfl htakes
    rw [← (hargs (1, [.float 2.5])).mp rfl] at hcall
    exact ⟨_, hcall⟩

end FlatLisp
