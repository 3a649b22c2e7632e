import FlatLisp.Proofs.Adaptation

/-!
# Values and payloads

A value leaves the language as a payload and comes back by asking the kinds for it. A payload has one
kind that claims it, or none (`Foreign.claimant?`), so the order in which the kinds are asked does not
matter. The payload of a value is claimed by the kind of the value; hence a value that the host passes
on as it is comes back as the same value.
-/

namespace FlatLisp

open Correspondence

variable {E : Type}

/-- The kind that claims a payload. -/
def Foreign.claimant? : Foreign E → Option Kind
  | .bool _ => some .bool
  | .int64 _ | .int32 _ | .word32 _ => some .int
  | .float _ | .single _ => some .float
  | .complex _ => some .complex
  | .text _ | .fixedText _ => some .symbol
  | .unit => some .empty
  | .function _ => some .function
  | .object _ => some .object
  | .boxed _ | .unclaimed => none

/-! ## One kind -/

namespace Kind

variable {kind kind' : Kind} {raw raw' : Foreign E} {v v' : Value E} {id : Nat}

/-- A payload becomes a value of the kind that claims it, or an object. -/
theorem exists_wrap_iff (kind : Kind) (id : Nat) (raw : Foreign E) :
    (∃ v, kind.wrap id raw = .ok v) ↔ raw.claimant? = some kind ∨ kind = .object := by
  cases kind <;> cases raw <;> simp [wrap, Foreign.claimant?]

/-- What a kind does not take, it hands back as it is. -/
theorem eq_of_wrap_error (h : kind.wrap id raw = .error raw') : raw' = raw := by
  cases kind <;> cases raw <;> cases h <;> rfl

/-- A kind that neither claims a payload nor takes any hands it back. -/
theorem wrap_eq_error (hclaims : raw.claimant? ≠ some kind) (hobject : kind ≠ .object) :
    kind.wrap id raw = .error raw := by
  cases hwrap : kind.wrap id raw with
  | ok v => exact absurd ((exists_wrap_iff kind id raw).mp ⟨v, hwrap⟩) (not_or.mpr ⟨hclaims, hobject⟩)
  | error raw' => rw [eq_of_wrap_error hwrap]

/-- No payload is claimed by two kinds, apart from objects, which take any. -/
theorem eq_of_wrap (hkind : kind ≠ .object) (hkind' : kind' ≠ .object)
    (h : kind.wrap id raw = .ok v) (h' : kind'.wrap id raw = .ok v') : kind = kind' := by
  have hclaims := ((exists_wrap_iff kind id raw).mp ⟨v, h⟩).resolve_right hkind
  have hclaims' := ((exists_wrap_iff kind' id raw).mp ⟨v', h'⟩).resolve_right hkind'
  exact Option.some.inj (hclaims.symm.trans hclaims')

/-- The kind of a value makes the value again of its payload. -/
theorem wrap_kind_toForeign (id : Nat) (v : Value E) : v.kind.wrap id v.toForeign = .ok v := by
  cases v <;> rfl

/-- The kind of a value claims its payload. -/
theorem claimant?_toForeign (v : Value E) : v.toForeign.claimant? = some v.kind := by
  cases v <;> rfl

end Kind

/-! ## All kinds -/

namespace Foreign

open Kind

variable {kinds kinds' : List Kind} {raw : Foreign E}

/-- Make any payload a value, asking the given kinds. -/
def ensureAmong (kinds : List Kind) (id : Nat) : Foreign E → Value E
  | .boxed v => v
  | raw => claim id kinds raw

/-- A payload that none of the kinds takes is left to objects. -/
theorem claim_of_unclaimed (id : Nat) (hclaims : ∀ kind ∈ kinds, raw.claimant? ≠ some kind)
    (hobject : .object ∉ kinds) : claim id kinds raw = claim id [] raw := by
  induction kinds with
  | nil => rfl
  | cons kind kinds ih =>
    obtain ⟨hfirst, hrest⟩ := List.forall_mem_cons.mp hclaims
    have hrejected : kind.wrap id raw = .error raw :=
      wrap_eq_error hfirst (Ne.symm (List.ne_of_not_mem_cons hobject))
    rw [← ih hrest (List.not_mem_of_not_mem_cons hobject)]
    simp only [claim, hrejected]

/-- A payload that one of the kinds claims becomes a value of that kind. -/
theorem claim_of_claimed {kind : Kind} {v : Value E} {id : Nat} (hmem : kind ∈ kinds)
    (hobject : .object ∉ kinds) (hwrap : kind.wrap id raw = .ok v) : claim id kinds raw = v := by
  induction kinds with
  | nil => cases hmem
  | cons first kinds ih =>
    have hne : first ≠ .object := Ne.symm (List.ne_of_not_mem_cons hobject)
    have hkind : kind ≠ .object := fun heq => hobject (heq ▸ hmem)
    rw [claim]
    cases hfirst : first.wrap id raw with
    | ok u =>
      cases eq_of_wrap hne hkind hfirst hwrap
      exact Except.ok.inj (hfirst.symm.trans hwrap)
    | error raw' =>
      rw [eq_of_wrap_error hfirst]
      refine ih ((List.mem_cons.mp hmem).resolve_left fun heq => ?_)
        (List.not_mem_of_not_mem_cons hobject)
      rw [heq, hfirst] at hwrap
      cases hwrap

/-- Kinds may be asked in any order. -/
theorem claim_congr (id : Nat) (raw : Foreign E) (hmem : ∀ kind, kind ∈ kinds ↔ kind ∈ kinds')
    (hobject : .object ∉ kinds') : claim id kinds raw = claim id kinds' raw := by
  have hobject' : .object ∉ kinds := fun h => hobject ((hmem _).mp h)
  by_cases hclaimed : ∃ kind ∈ kinds', raw.claimant? = some kind
  · obtain ⟨kind, hkind, hclaims⟩ := hclaimed
    obtain ⟨v, hv⟩ := (exists_wrap_iff kind id raw).mpr (.inl hclaims)
    rw [claim_of_claimed ((hmem kind).mpr hkind) hobject' hv, claim_of_claimed hkind hobject hv]
  · have hnone : ∀ kind ∈ kinds', raw.claimant? ≠ some kind :=
      fun kind hkind hclaims => hclaimed ⟨kind, hkind, hclaims⟩
    rw [claim_of_unclaimed id hnone hobject,
      claim_of_unclaimed id (fun kind hkind => hnone kind ((hmem kind).mp hkind)) hobject']

/-- Any payload becomes the same value in whatever order the kinds are asked. -/
theorem ensureAmong_perm {kinds : List Kind} (h : kinds.Perm Kind.priority) (id : Nat)
    (raw : Foreign E) : ensureAmong kinds id raw = raw.ensure id := by
  have hclaim := claim_congr id raw (fun _ => h.mem_iff) (show Kind.object ∉ Kind.priority by decide)
  cases raw with
  | boxed v => rfl
  | _ => exact hclaim

end Foreign

/-! ## Functions of payloads -/

variable [Embedding E]

/-- The function outside of the language that a body stands for, if it is one that takes payloads as
they come. -/
def Body.passThrough? : Body E → Option (List (Foreign E) → EvalM E (Foreign E))
  | .host f => some fun payloads => EvalM.ofExcept (f.run payloads)
  | .embedded e =>
    match Embedding.native e with
    | .typed _ => none
    | .passThrough run => some run
  | _ => none

/-- A function of payloads takes any operands and runs on their payloads. -/
theorem Body.run_of_passThrough? {body : Body E} {run : List (Foreign E) → EvalM E (Foreign E)}
    (h : body.passThrough? = some run) : body.signature = .passThrough ∧ ∀ caller operands,
      body.run caller operands = (Native.passThrough run).invoke caller operands := by
  cases body with
  | host f =>
    cases h
    exact ⟨rfl, fun _ _ => rfl⟩
  | embedded e =>
    simp only [passThrough?] at h
    split at h
    · cases h
    · next hnative =>
      cases h
      simp only [signature, Body.run, hnative, Native.signature, implies_true, and_self]
  | form _ | builtin _ | closure _ _ _ | template _ _ => cases h

/-- A function of payloads gets the payloads of its operands, and what it returns is made a value. -/
theorem Function.call_eq_of_passThrough? {body : Body E}
    {run : List (Foreign E) → EvalM E (Foreign E)} (h : body.passThrough? = some run) (id : Nat)
    (label : Option String) (s : ScopeId) (operands : List (Operand E)) :
    Function.call ⟨id, label, body⟩ s operands = (do
      let payload ← run (operands.map Operand.toForeign)
      return payload.ensure (← EvalM.newId)) := by
  obtain ⟨hsignature, hrun⟩ := Body.run_of_passThrough? h
  have hpayloads : (operands.map Operand.flatten).map Operand.toForeign =
      operands.map (Operand.toForeign : Operand E → Foreign E) := by
    rw [List.map_map]
    exact List.map_congr_left fun operand _ => by cases operand <;> rfl
  funext w
  change (EvalM.ofExcept (body.signature.adapt operands) >>= fun passed =>
    body.run (.of w s) passed) w = _
  rw [hsignature]
  simp only [hrun]
  change (do
    let payload ← run ((operands.map Operand.flatten).map Operand.toForeign)
    return payload.ensure (← EvalM.newId) : EvalM E (Value E)) w = _
  rw [hpayloads]

/-- A function of payloads that returns the payload of an argument returns that argument. -/
theorem Function.call_passing {body : Body E} {run : List (Foreign E) → EvalM E (Foreign E)}
    (h : body.passThrough? = some run) (id : Nat) (label : Option String) (s : ScopeId)
    {operands : List (Operand E)} {v : Value E} {w w' : World E}
    (hrun : run (operands.map Operand.toForeign) w = (.ok v.toForeign, w')) :
    Function.call ⟨id, label, body⟩ s operands w =
      (.ok v, { w' with nextId := w'.nextId + 1 }) := by
  rw [Function.call_eq_of_passThrough? h, run_bind_ok _ hrun]
  change (Except.ok (v.toForeign.ensure w'.nextId), { w' with nextId := w'.nextId + 1 }) = _
  rw [Foreign.ensure_toForeign]

/-- The payload of a value stands for that value again. A kind takes it just if it is the kind of the
value, which then makes the value again, or if it is the kind of objects; any other kind hands it back,
and it still stands for the value. A boxed value stands for itself. No two of the kinds that are asked
take the same payload, so any payload becomes the same value in whatever order they are asked. And a
function of payloads that returns one of its arguments, whatever else it is given, returns just this
value. -/
theorem payloads_restore_values :
    (∀ (id : Nat) (v : Value E), v.toForeign.ensure id = v) ∧
    (∀ (kind : Kind) (id : Nat) (v : Value E),
      ((∃ u, kind.wrap id v.toForeign = .ok u) ↔ kind = v.kind ∨ kind = .object) ∧
      (kind = v.kind → kind.wrap id v.toForeign = .ok v) ∧
      ∀ raw, kind.wrap id v.toForeign = .error raw → ∀ id', raw.ensure id' = v) ∧
    (∀ (id : Nat) (v : Value E), (Foreign.boxed v).ensure id = v) ∧
    (∀ kind ∈ Kind.priority, ∀ kind' ∈ Kind.priority, ∀ (id : Nat) (raw : Foreign E) (v v' : Value E),
      kind.wrap id raw = .ok v → kind'.wrap id raw = .ok v' → kind = kind') ∧
    (∀ kinds : List Kind, kinds.Perm Kind.priority → ∀ (id : Nat) (raw : Foreign E),
      Foreign.ensureAmong kinds id raw = raw.ensure id) ∧
    ∀ (body : Body E) (run : List (Foreign E) → EvalM E (Foreign E)), body.passThrough? = some run →
      ∀ (id : Nat) (label : Option String) (s : ScopeId) (operands : List (Operand E)) (k : Nat)
        (v : Value E) (w w' : World E), operands[k]? = some (.value v) →
        (∀ payload, (operands.map Operand.toForeign)[k]? = some payload →
          run (operands.map Operand.toForeign) w = (.ok payload, w')) →
        Function.call ⟨id, label, body⟩ s operands w =
          (.ok v, { w' with nextId := w'.nextId + 1 }) := by
  have hpriority {kind : Kind} (h : kind ∈ Kind.priority) : kind ≠ .object := by
    rintro rfl
    exact absurd h (by decide)
  refine ⟨Foreign.ensure_toForeign, fun kind id v => ⟨?_, ?_, fun raw h id' => ?_⟩, fun _ _ => rfl,
    fun kind hkind kind' hkind' id raw v v' => Kind.eq_of_wrap (hpriority hkind) (hpriority hkind'),
    fun kinds => Foreign.ensureAmong_perm, ?_⟩
  · rw [Kind.exists_wrap_iff, Kind.claimant?_toForeign, Option.some_inj, eq_comm]
  · rintro rfl
    exact Kind.wrap_kind_toForeign id v
  · rw [Kind.eq_of_wrap_error h, Foreign.ensure_toForeign]
  · intro body run hbody id label s operands k v w w' hk hrun
    refine Function.call_passing hbody id label s (hrun _ ?_)
    rw [List.getElem?_map, hk]
    rfl

/-- Asked in reverse, the kinds make the same integer of a short one. The kind of integers hands a
symbol back, which is still the symbol. And a function that returns its last payload returns an object
that it was given after a program. -/
theorem payloads_restore_values_echo :
    let o : Object Embed.Sample := Object.ofList 3 [1, 2]
    let raw : Foreign Embed.Sample := .int32 7
    let symbol : Value Embed.Sample := .symbol "name"
    let operands : List (Operand Embed.Sample) :=
      [.value (.float 0.5), .program [.word "x"], .value (.object o)]
    Foreign.ensureAmong Kind.priority.reverse 0 raw = raw.ensure 0 ∧
      Kind.int.wrap 0 symbol.toForeign = .error symbol.toForeign ∧
      symbol.toForeign.ensure 0 = symbol ∧
      Kind.object.wrap 0 (.object o) = .ok (.object o) ∧
      Function.call ⟨0, none, .embedded (.host .echo)⟩ 0 operands World.empty =
        (.ok (.object o), { World.empty with nextId := 1 }) := by
  intro o raw symbol operands
  obtain ⟨-, hwrap, -, -, horder, hcall⟩ := payloads_restore_values (E := Embed.Sample)
  refine ⟨horder _ (List.reverse_perm _) 0 raw, rfl, (hwrap .int 0 symbol).2.2 _ rfl 0,
    (hwrap .object 0 (.object o)).2.1 rfl, ?_⟩
  have hecho : (Body.embedded (.host .echo) : Body Embed.Sample).passThrough? =
      some Embed.HostSample.echo.run := rfl
  refine hcall _ _ hecho 0 none 0 operands 2 (.object o) World.empty World.empty rfl ?_
  rintro payload ⟨⟩
  rfl

end FlatLisp
