import FlatLisp.Proofs.Adaptation
import FlatLisp.Proofs.Opening
import FlatLisp.Proofs.Rereading.Session

/-!
# Formal parameters

A list of formals is accepted if it is a pair of parentheses around different names, and for no other
sequence of tokens, whether or not its parentheses match. So a function takes as many operands as it has
formals, and a call pairs each formal with the operand at its own position: a closure binds the one to the
value of the other, a template puts the one in for the other.
-/

namespace FlatLisp

open Correspondence

/-! ## Lists of formals -/

/-- Names are accepted one by one if each can be bound and is new, and then all are kept in order. -/
theorem collectFormals_eq_ok_iff {names formals : List String} {parts : List Program} :
    collectFormals names parts = .ok formals ↔
      ∃ new, parts = new.map (fun name => [.word name]) ∧ formals = names.reverse ++ new ∧
        (∀ name ∈ new, isValidSymbol name = true) ∧ new.Nodup ∧ ∀ name ∈ new, name ∉ names := by
  -- Where the next part is refused, it is no word, no name that can be bound, or one of those before it,
  -- so the parts are not those of new names.
  fun_induction collectFormals names parts with
  | case1 names =>
    constructor
    · intro h
      cases h
      exact ⟨[], rfl, (List.append_nil _).symm, List.forall_mem_nil _, List.nodup_nil,
        List.forall_mem_nil _⟩
    · rintro ⟨new, hparts, rfl, -⟩
      rw [List.map_eq_nil_iff.mp hparts.symm, List.append_nil]
  | case2 names name parts hinvalid =>
    refine ⟨fun h => (by cases h), ?_⟩
    rintro ⟨new, hparts, -, hvalid, -⟩
    obtain ⟨first, rest, rfl, hfirst, -⟩ := List.map_eq_cons_iff.mp hparts.symm
    cases hfirst
    simp [hvalid name List.mem_cons_self] at hinvalid
  | case3 names name parts hvalid hold =>
    refine ⟨fun h => (by cases h), ?_⟩
    rintro ⟨new, hparts, -, -, -, hnew⟩
    obtain ⟨first, rest, rfl, hfirst, -⟩ := List.map_eq_cons_iff.mp hparts.symm
    cases hfirst
    exact absurd (by simpa using hold) (hnew name List.mem_cons_self)
  | case4 names name parts hvalid hold ih =>
    have hname : isValidSymbol name = true := by simpa using hvalid
    have hnot : name ∉ names := by simpa using hold
    rw [ih]
    constructor
    · rintro ⟨new, rfl, rfl, hvalid, hnodup, hnew⟩
      refine ⟨name :: new, rfl, by simp, ?_, ?_, ?_⟩
      · exact List.forall_mem_cons.mpr ⟨hname, hvalid⟩
      · exact List.nodup_cons.mpr ⟨fun hmem => hnew name hmem List.mem_cons_self, hnodup⟩
      · exact List.forall_mem_cons.mpr ⟨hnot, fun other hmem =>
          (List.ne_and_not_mem_of_not_mem_cons (hnew other hmem)).2⟩
    · rintro ⟨new, hparts, rfl, hvalid, hnodup, hnew⟩
      obtain ⟨first, rest, rfl, hfirst, rfl⟩ := List.map_eq_cons_iff.mp hparts.symm
      cases hfirst
      obtain ⟨hother, hrest⟩ := List.nodup_cons.mp hnodup
      refine ⟨rest, rfl, by simp, (List.forall_mem_cons.mp hvalid).2, hrest, fun other hmem => ?_⟩
      refine List.not_mem_cons_of_ne_of_not_mem ?_ ((List.forall_mem_cons.mp hnew).2 other hmem)
      rintro rfl
      exact hother hmem
  | case5 names token parts hword =>
    refine ⟨fun h => (by cases h), ?_⟩
    rintro ⟨new, hparts, -⟩
    obtain ⟨first, rest, rfl, hfirst, -⟩ := List.map_eq_cons_iff.mp hparts.symm
    cases hfirst
    exact (hword first rfl).elim
  | case6 names part parts hword htoken =>
    refine ⟨fun h => (by cases h), ?_⟩
    rintro ⟨new, hparts, -⟩
    obtain ⟨first, rest, rfl, hfirst, -⟩ := List.map_eq_cons_iff.mp hparts.symm
    exact (htoken _ hfirst.symm).elim

/-- Words in parentheses are a list of leaves. -/
theorem tokens_list_leaves (words : List String) :
    Forest.tokens [.list (words.map .leaf)] = .left :: (words.map Token.word ++ [.right]) := by
  have hwords : Forest.tokens (words.map .leaf) = words.map Token.word := by
    induction words with
    | nil => rfl
    | cons word words ih => rw [List.map_cons, Forest.tokens_leaf_cons, ih, List.map_cons]
  rw [Forest.tokens_list_cons, hwords, Forest.tokens_nil]

/-- A list of formals is accepted exactly if it is a pair of parentheses around different names that can
be bound. -/
theorem parameterList_eq_ok_iff {form : Program} {names : List String} :
    parameterList form = .ok names ↔ form = .left :: (names.map Token.word ++ [.right]) ∧
      names.Nodup ∧ ∀ name ∈ names, isValidSymbol name = true := by
  constructor
  · intro h
    unfold parameterList at h
    split at h
    · next hcombination =>
      -- The parentheses of a combination match, so it is the forest of one list.
      obtain ⟨f, rfl⟩ : ∃ f, Forest.tokens f = form :=
        ⟨form.forest, Program.tokens_forest (Program.isValid_of_isCombination hcombination)⟩
      obtain ⟨children, rfl⟩ := Program.isCombination_tokens_iff.mp hcombination
      rw [Program.split_tokens_list, collectFormals_eq_ok_iff] at h
      obtain ⟨new, hparts, rfl, hvalid, hnodup, -⟩ := h
      refine ⟨?_, hnodup, hvalid⟩
      have hflatten := congrArg List.flatten hparts
      rw [Forest.flatten_map_tokens] at hflatten
      have hwords : (names.map fun name => [Token.word name]).flatten = names.map Token.word :=
        List.flatMap_pure_eq_map Token.word names
      rw [Forest.tokens_list_cons, hflatten, Forest.tokens_nil]
      exact congrArg (fun words => Token.left :: (words ++ [.right])) hwords
    · cases h
  · rintro ⟨rfl, hnodup, hvalid⟩
    rw [← tokens_list_leaves]
    have hcombination : Program.isCombination (Forest.tokens [.list (names.map .leaf)]) = true :=
      Program.isCombination_tokens_iff.mpr ⟨_, rfl⟩
    rw [parameterList, if_pos hcombination, Program.split_tokens_list, collectFormals_eq_ok_iff]
    refine ⟨names, ?_, rfl, hvalid, hnodup, nofun⟩
    rw [List.map_map]
    rfl

/-- What can be bound is no parenthesis. -/
theorem eq_word_of_isValidSymbol {t : Token} (h : isValidSymbol t.text = true) :
    t = .word t.text := by
  cases t with
  | word text => rfl
  | left | right => exact absurd h (by decide)

/-- The same, said of the tokens between the parentheses. -/
theorem parameterList_eq_ok_iff_tokens {form : Program} {names : List String} :
    parameterList form = .ok names ↔ ∃ tokens, form = .left :: (tokens ++ [.right]) ∧
      tokens.Nodup ∧ (∀ t ∈ tokens, isValidSymbol t.text = true) ∧
      names = tokens.map Token.text := by
  rw [parameterList_eq_ok_iff]
  constructor
  · rintro ⟨rfl, hnodup, hvalid⟩
    refine ⟨names.map .word, rfl, ?_, ?_, ?_⟩
    · exact hnodup.map fun _ _ => Token.word.inj
    · exact List.forall_mem_map.mpr hvalid
    · rw [List.map_map]
      exact (List.map_id names).symm
  · rintro ⟨tokens, rfl, hnodup, hvalid, rfl⟩
    have hwords : (tokens.map Token.text).map Token.word = tokens := by
      rw [List.map_map]
      exact (List.map_congr_left fun t ht => (eq_word_of_isValidSymbol (hvalid t ht)).symm).trans
        (List.map_id tokens)
    refine ⟨by rw [hwords], ?_, List.forall_mem_map.mpr hvalid⟩
    exact List.Nodup.of_map Token.word (hwords.symm ▸ hnodup)

variable {E : Type}

/-! ## Functions that were made -/

/-- The formals of a function that was made in the language. -/
def Body.formals? : Body E → Option (List String)
  | .closure formals _ _ | .template formals _ => some formals
  | _ => none

/-- The same code has the same formals. -/
theorem Body.SameCode.formals?_eq {body copy : Body E} (h : body.SameCode copy) :
    copy.formals? = body.formals? := by
  cases h <;> rfl

section

variable [Embedding E]

/-- If a function was made in the language, its formals are different names that can be bound, and it takes
exactly as many operands. -/
def Function.HasSoundFormals (f : Function E) : Prop :=
  ∀ formals, f.body.formals? = some formals →
    formals.Nodup ∧ (∀ name ∈ formals, isValidSymbol name = true) ∧
      f.signature.arity? = some (.exactly formals.length)

/-- Functions of formals that were accepted are sound. -/
theorem Function.hasSoundFormals_of_parameterList {f : Function E} (parameters : Program)
    (h : ∀ formals, f.body.formals? = some formals → parameterList parameters = .ok formals) :
    f.HasSoundFormals := by
  intro formals hformals
  obtain ⟨-, hnodup, hvalid⟩ := parameterList_eq_ok_iff.mp (h formals hformals)
  refine ⟨hnodup, hvalid, ?_⟩
  obtain ⟨id, label, body⟩ := f
  cases body with
  | closure _ _ _ | template _ _ =>
    cases hformals
    simp [signature, Body.signature, Signature.untyped, Signature.unevaluated, Signature.arity?]
  | form | builtin | host | embedded => cases hformals

/-- A function that shows its source shows its formals. -/
theorem Function.ShowsSource.hasSoundFormals {comments : Bool} {f : Function E}
    (h : f.ShowsSource comments) : f.HasSoundFormals := by
  obtain ⟨id, label, body⟩ := f
  cases body with
  | closure formals p s | template formals p =>
    obtain ⟨parameters, -, -, -, hformals⟩ := h
    refine hasSoundFormals_of_parameterList parameters fun names hnames => ?_
    cases hnames
    exact hformals
  | form | builtin | host | embedded => exact nofun

/-- What a special form that makes functions makes of formals and a body, when it is called from a scope,
and the keyword that it writes in front of them. -/
inductive Form.Makes (s : ScopeId) (program : Program) :
    Form → String → (List String → Body E) → Prop
  | lambda : Makes s program .lambda "lambda" fun formals => .closure formals program s
  | template : Makes s program .template "macro" fun formals => .template formals program

namespace Form.Makes

variable {s : ScopeId} {caller : Caller E} {program parameters : Program} {form : Form}
  {keyword : String} {make : List String → Body E}

/-- A special form that makes functions checks the formals first. -/
theorem apply_eq (h : form.Makes caller.scope program keyword make) (id : Nat)
    (label : Option String) (parameters : Program) (x : World E) :
    Function.apply ⟨id, label, .form form⟩ caller [.program parameters, .program program] x =
      makeFunction keyword parameters program make x := by
  cases h <;> rfl

omit [Embedding E] in
/-- What is made has the formals that were given. -/
theorem formals?_eq (h : form.Makes s program keyword make) (formals : List String) :
    (make formals).formals? = some formals := by
  cases h <;> rfl

/-- What is made of formals that were accepted is sound. -/
theorem hasSoundFormals (h : form.Makes s program keyword make) {formals : List String}
    (hformals : parameterList parameters = .ok formals) (id : Nat) (label : Option String) :
    (⟨id, label, make formals⟩ : Function E).HasSoundFormals := by
  refine Function.hasSoundFormals_of_parameterList parameters fun names hnames => ?_
  cases (h.formals?_eq formals).symm.trans hnames
  exact hformals

/-- With formals that are refused nothing is made. -/
theorem apply_refused (h : form.Makes caller.scope program keyword make) {fault : FormalsFault}
    (hfault : parameterList parameters = .error fault) (id : Nat) (label : Option String)
    (x : World E) :
    Function.apply ⟨id, label, .form form⟩ caller [.program parameters, .program program] x =
      (.error (.invalidFormals fault), x) := by
  rw [h.apply_eq, makeFunction, hfault]
  rfl

end Form.Makes

/-- The functions that a session can have made are sound. -/
theorem Value.IsWritten.hasSoundFormals {w : World E} {i : Nat} {a : Value E} (h : a.IsWritten w i)
    (hi : i < w.sessions.size) : a.All Function.HasSoundFormals :=
  h.mono fun _ hf => (hf.source _ (Array.getElem?_eq_getElem hi)).hasSoundFormals

omit [Embedding E] in
/-- A scope that does not exist has no session. -/
theorem EvalM.session_of_not_lt {w : World E} {s : ScopeId} (hs : ¬s < w.scopes.size) :
    EvalM.session s w = (.error (.domain .lostScope), w) := by
  rw [EvalM.session, World.sessionOf?, Array.getElem?_eq_none (Nat.le_of_not_lt hs)]
  rfl

/-- The functions in what a text evaluates to are sound. -/
theorem World.IsAuthored.hasSoundFormals_interpret (hE : Embedding.PassesOn E) {w : World E}
    (h : w.IsAuthored) {s : ScopeId} {text : String} {a : Value E}
    (ha : (FlatLisp.interpret s text w).1 = .ok a) : a.All Function.HasSoundFormals := by
  by_cases hs : s < w.scopes.size
  · have hscope := Array.getElem?_eq_getElem hs
    have hpass : LetsPass fun _ (a : Value E) => pure a := fun _ _ _ _ _ _ => rfl
    have hupheld := (upholds_interpret hE hpass ⟨_, hscope, rfl⟩ text w (.refl w) h).2
    refine (hupheld.result ha).hasSoundFormals ?_
    rw [hupheld.grows.sessions]
    exact h.sessions hscope
  · rw [FlatLisp.interpret, run_bind_error _ (EvalM.session_of_not_lt hs)] at ha
    cases ha

/-- A function that is made again from its text is sound, since the copy is one that a new session makes of
the text. -/
theorem Function.Rereads.hasSoundFormals (hE : Embedding.PassesOn E) {comments : Bool} {f : Function E}
    (h : f.Rereads comments) : f.HasSoundFormals := by
  obtain ⟨p, hparse, hcopies⟩ := h
  obtain ⟨u, hopen, hsession, -, -, hmeans⟩ :=
    exists_openRoot (.empty : Host E) .disabled comments 4 World.empty
  have hauthored : u.IsAuthored := by
    have hhost : ∀ f, (Host.empty : Host E).Offers f → ¬f.body.IsDefined :=
      fun f hf => absurd hf (Host.not_offers_empty f)
    have hscripted : Scripted (openRoot (.empty : Host E) .disabled comments 4 World.empty).2 :=
      (Scripted.fresh rfl rfl).opened hhost .disabled comments 4
    rw [hopen] at hscripted
    exact hscripted.isAuthored hE
  -- The new session has the forms, so it makes the copy when it evaluates the text.
  have hcopy := hcopies u _ _ (hmeans .lambda "lambda" (by decide))
    (hmeans .template "macro" (by decide)) hsession
  rw [if_pos (show 0 + 1 < 4 by decide)] at hcopy
  obtain ⟨g, hevaluate, -, hcopy⟩ := hcopy
  have hsound : g.HasSoundFormals := by
    have hinterpret : (interpret (World.empty : World E).scopes.size f.render u).1 =
        .ok (.function g) := by
      have hlive : EvalM.session (World.empty : World E).scopes.size u =
          (.ok ⟨.empty, .disabled, comments, 4, 0, false⟩, u) := by
        rw [EvalM.session, hsession]
        rfl
      rw [interpret, run_bind_ok _ hlive, hparse]
      exact congrArg Prod.fst hevaluate
    cases hauthored.hasSoundFormals_interpret hE hinterpret with
    | function h => exact h
  intro formals hformals
  obtain ⟨hnodup, hvalid, harity⟩ := hsound formals (hcopy.code.formals?_eq.trans hformals)
  exact ⟨hnodup, hvalid, hcopy.signature ▸ harity⟩

end

/-! ## Operands -/

namespace Signature

variable {spec : ParamSpec} {operands adapted : List (Operand E)}

/-- Operands that are taken as they are pass if each of them is accepted. -/
theorem adaptFrom_replicate_eq_ok_iff (hspec : spec.flatten = false) (position : Nat) :
    adaptFrom none position (List.replicate operands.length spec) operands = .ok adapted ↔
      adapted = operands ∧ ∀ operand ∈ operands, spec.accepts operand = true := by
  induction operands generalizing position adapted with
  | nil =>
    rw [adaptFrom, Except.ok.injEq, eq_comm]
    exact ⟨fun h => ⟨h, List.forall_mem_nil _⟩, And.left⟩
  | cons operand operands ih =>
    rw [List.length_cons, List.replicate_succ, adaptFrom, ParamSpec.adapt, hspec,
      List.forall_mem_cons]
    by_cases haccepts : spec.accepts operand = true
    · rw [if_pos haccepts]
      cases hrest : adaptFrom none (position + 1) (List.replicate operands.length spec) operands with
      | error e =>
        refine ⟨fun h => (by cases h), fun h => ?_⟩
        cases hrest.symm.trans ((ih (position + 1)).mpr ⟨rfl, h.2.2⟩)
      | ok rest =>
        obtain ⟨rfl, hall⟩ := (ih (position + 1)).mp hrest
        constructor
        · intro h
          cases h
          exact ⟨rfl, haccepts, hall⟩
        · rintro ⟨rfl, -⟩
          rfl
    · rw [if_neg haccepts]
      exact ⟨fun h => (by cases h), fun h => absurd h.2.1 haccepts⟩

/-- Such operands pass a signature if there are as many as it has parameters. -/
theorem adapt_replicate_eq_ok_iff {signature : Signature} {count : Nat} (spec : ParamSpec)
    (hparameters : signature.parameters = some (List.replicate count spec))
    (hvariadic : signature.variadic = none) (hspec : spec.flatten = false) :
    signature.adapt operands = .ok adapted ↔ operands.length = count ∧ adapted = operands ∧
      ∀ operand ∈ operands, spec.accepts operand = true := by
  have harity : signature.arity? = some (.exactly count) := by
    simp [arity?, hparameters, hvariadic]
  simp only [adapt, hparameters, harity, hvariadic, Arity.accepts, beq_iff_eq]
  by_cases hcount : operands.length = count
  · subst hcount
    simp only [adaptFrom_replicate_eq_ok_iff hspec, ↓reduceIte, true_and]
  · simp only [hcount, ↓reduceIte, reduceCtorEq, false_and]

/-- A closure takes as many operands as it has formals, whatever they are. -/
theorem adapt_untyped_eq_ok_iff {count : Nat} :
    (untyped count).adapt operands = .ok adapted ↔
      operands.length = count ∧ adapted = operands := by
  rw [adapt_replicate_eq_ok_iff .any rfl rfl rfl]
  exact and_congr_right fun _ => and_iff_left fun _ _ => rfl

/-- A template takes as many programs as it has formals. -/
theorem adapt_unevaluated_eq_ok_iff {count : Nat} {wantsScope : Bool} :
    (unevaluated count wantsScope).adapt operands = .ok adapted ↔
      ∃ programs : List Program, programs.length = count ∧ operands = programs.map .program ∧
        adapted = operands := by
  rw [adapt_replicate_eq_ok_iff .program rfl rfl rfl]
  constructor
  · rintro ⟨hcount, hadapted, hall⟩
    have hprograms : operands ∈ Set.range (List.map (Operand.program (E := E))) := by
      rw [Set.range_list_map]
      intro operand hmem
      have haccepts := hall operand hmem
      cases operand with
      | program p => exact ⟨p, rfl⟩
      | value v => cases v <;> cases haccepts
      | raw payload => cases haccepts
    obtain ⟨programs, rfl⟩ := hprograms
    rw [List.length_map] at hcount
    exact ⟨programs, hcount, rfl, hadapted⟩
  · rintro ⟨programs, hcount, rfl, hadapted⟩
    refine ⟨by rw [List.length_map, hcount], hadapted, fun operand hmem => ?_⟩
    obtain ⟨p, -, rfl⟩ := List.mem_map.mp hmem
    rfl

end Signature

/-- An operand is passed to a closure as a value. Where it is a payload that no kind claims, `id` numbers
the object that it is wrapped in. -/
inductive Operand.Gives : Operand E → Value E → Prop
  | value (v : Value E) : Gives (.value v) v
  | raw (payload : Foreign E) (id : Nat) : Gives (.raw payload) (payload.ensure id)

/-- An operand that is no program is read as a value that it gives. -/
theorem exists_read_gives {operand : Operand E} (h : ∀ p, operand ≠ .program p) (position : Nat)
    (w : World E) : ∃ v next, operand.Gives v ∧
      ParamType.read .value operand position w = (.ok v, { w with nextId := next }) := by
  cases operand with
  | value v => exact ⟨v, w.nextId, .value v, rfl⟩
  | raw payload => exact ⟨_, w.nextId + 1, .raw payload w.nextId, rfl⟩
  | program p => exact absurd rfl (h p)

/-- Operands are read as the values that they give, one for each. -/
theorem exists_readRest_gives {operands : List (Operand E)}
    (h : ∀ operand ∈ operands, ∀ p, operand ≠ .program p) (position : Nat) (w : World E) :
    ∃ values next, List.Forall₂ Operand.Gives operands values ∧
      Args.readRest .value position operands w = (.ok values, { w with nextId := next }) := by
  induction operands generalizing position w with
  | nil => exact ⟨[], w.nextId, .nil, rfl⟩
  | cons operand operands ih =>
    obtain ⟨hfirst, hrest⟩ := List.forall_mem_cons.mp h
    obtain ⟨v, next, hv, hread⟩ := exists_read_gives hfirst position w
    obtain ⟨values, last, hvalues, hrun⟩ := ih hrest (position + 1) { w with nextId := next }
    refine ⟨v :: values, last, .cons hv hvalues, ?_⟩
    rw [Args.readRest, run_bind_ok _ hread, run_bind_ok _ hrun]
    rfl

/-- The first operand that is a program is refused. -/
theorem exists_readRest_refused {operands : List (Operand E)} {i : Nat} {p : Program}
    (hoperand : operands[i]? = some (.program p))
    (hbefore : ∀ j < i, ∀ q, operands[j]? ≠ some (.program q)) (position : Nat) (w : World E) :
    ∃ next, Args.readRest .value position operands w =
      (.error (.typeMismatch (position + i) "any value" "Program"), { w with nextId := next }) := by
  induction i generalizing operands position w with
  | zero =>
    cases operands with
    | nil => cases hoperand
    | cons operand operands =>
      cases hoperand
      exact ⟨w.nextId, rfl⟩
  | succ i ih =>
    cases operands with
    | nil => cases hoperand
    | cons operand operands =>
      have hfirst : ∀ q, operand ≠ .program q :=
        fun q hq => hbefore 0 (Nat.succ_pos i) q (congrArg some hq)
      obtain ⟨v, next, -, hread⟩ := exists_read_gives hfirst position w
      obtain ⟨last, hrun⟩ := ih hoperand (fun j hj => hbefore (j + 1) (Nat.succ_lt_succ hj))
        (position + 1) { w with nextId := next }
      refine ⟨last, ?_⟩
      rw [Args.readRest, run_bind_ok _ hread, run_bind_error _ hrun, Nat.add_assoc, Nat.add_comm 1]

/-- Programs are read as they are. -/
theorem readRest_programs (position : Nat) (programs : List Program) (w : World E) :
    Args.readRest .program position (programs.map .program) w = (.ok programs, w) := by
  induction programs generalizing position with
  | nil => rfl
  | cons p programs ih =>
    have hfirst : ParamType.read .program (.program p) position w = (.ok p, w) := rfl
    rw [List.map_cons, Args.readRest, run_bind_ok _ hfirst, run_bind_ok _ (ih (position + 1))]
    rfl

/-! ## Calls -/

/-- A table binds each name to the value at its position, each name once and no other name. -/
structure Table.BindsInPlace {V : Type} (names : List String) (values : List V) (t : Table V) :
    Prop where
  keys : (t.map Prod.fst).Perm names
  bound : ∀ (i : Nat) (name : String) (v : V), names[i]? = some name → values[i]? = some v →
    t.find? name = some v

/-- A new name is bound in front of the others. -/
theorem Table.insert_of_not_mem {V : Type} {t : Table V} {name : String}
    (h : name ∉ t.map Prod.fst) (v : V) : t.insert name v = (name, v) :: t := by
  have hkept : (t.filter fun entry => entry.1 != name) = t := by
    refine List.filter_eq_self.mpr fun entry hentry => bne_iff_ne.mpr ?_
    rintro rfl
    exact h (List.mem_map_of_mem hentry)
  rw [insert, hkept]

/-- Binding a name in a scope that was just made is making a scope that binds it. -/
theorem World.bind_pushScope (w : World E) (scope : Scope E) (name : String) (v : Value E) :
    (w.pushScope scope).1.bind w.scopes.size name v =
      (w.pushScope { scope with table := scope.table.insert name v }).1 := by
  have hscopes : (w.scopes.push scope).modify w.scopes.size
      (fun scope => { scope with table := scope.table.insert name v }) =
        w.scopes.push { scope with table := scope.table.insert name v } := by
    apply Array.ext_getElem?
    intro t
    rw [Array.getElem?_modify, Array.getElem?_push, Array.getElem?_push]
    by_cases ht : w.scopes.size = t
    · simp [ht]
    · simp [ht, Ne.symm ht]
  exact congrArg (fun scopes => { w with scopes := scopes }) hscopes

/-- New names are all bound in a scope that was just made. -/
theorem bindAll_pushScope (w : World E) (scope : Scope E) {entries : List (String × Value E)}
    (hnames : (entries.map Prod.fst).Nodup)
    (hnew : ∀ name ∈ entries.map Prod.fst, name ∉ scope.table.map Prod.fst) :
    bindAll w.scopes.size entries (w.pushScope scope).1 =
      (.ok (), (w.pushScope { scope with table := entries.reverse ++ scope.table }).1) := by
  induction entries generalizing scope with
  | nil => rfl
  | cons entry entries ih =>
    obtain ⟨hfirst, hnames⟩ := List.nodup_cons.mp hnames
    obtain ⟨hnotBound, hnew⟩ := List.forall_mem_cons.mp hnew
    have hbind : EvalM.bind w.scopes.size entry.1 entry.2 (w.pushScope scope).1 =
        (.ok (), (w.pushScope { scope with table := entry :: scope.table }).1) := by
      rw [EvalM.bind, World.bind_pushScope, Table.insert_of_not_mem hnotBound]
    rw [bindAll, run_bind_ok _ hbind, ih _ hnames, List.reverse_cons, List.append_assoc]
    · rfl
    · intro name hname
      refine List.not_mem_cons_of_ne_of_not_mem ?_ (hnew name hname)
      rintro rfl
      exact hfirst hname

/-- A scope that was just made binds formals to values in place. -/
theorem exists_bindAll_formals (w : World E) {formals : List String} (hformals : formals.Nodup)
    {values : List (Value E)} (hlength : values.length = formals.length) (parent : Option ScopeId)
    (session : Nat) :
    ∃ table, Table.BindsInPlace formals values table ∧
      bindAll w.scopes.size (formals.zip values) (w.pushScope ⟨[], parent, session⟩).1 =
        (.ok (), (w.pushScope ⟨table, parent, session⟩).1) := by
  have hkeys : (formals.zip values).map Prod.fst = formals :=
    List.map_fst_zip (Nat.le_of_eq hlength.symm)
  have hnames : ((formals.zip values).map Prod.fst).Nodup := hkeys.symm ▸ hformals
  have hrun := bindAll_pushScope w ⟨[], parent, session⟩ hnames fun _ _ => List.not_mem_nil
  rw [List.append_nil] at hrun
  refine ⟨(formals.zip values).reverse, ⟨?_, fun i name v hname hv => ?_⟩, hrun⟩
  · rw [List.map_reverse, hkeys]
    exact List.reverse_perm formals
  · have hempty : (w.pushScope ⟨[], parent, session⟩).1.scopes[w.scopes.size]? =
        some ⟨[], parent, session⟩ := Array.getElem?_push_size
    obtain ⟨u, scope, hbind, -, hscope, -, hfound, -⟩ := exists_bindAll hempty hnames
    cases hrun.symm.trans hbind
    cases Array.getElem?_push_size.symm.trans hscope
    exact hfound (name, v)
      (List.mem_of_getElem? (List.getElem?_zip_eq_some.mpr ⟨hname, hv⟩))

section

variable [Embedding E] {x : World E} {session : Session E} {scope : Scope E} {formals : List String}
  {program : Program} {t : ScopeId} {operands : List (Operand E)}

/-- A call that passes the signature runs the body. -/
theorem Function.apply_eq_run {f : Function E} {adapted : List (Operand E)}
    (hadapt : f.signature.adapt operands = .ok adapted) (caller : Caller E) (x : World E) :
    f.apply caller operands x = f.body.run caller adapted x := by
  have hpassed : EvalM.ofExcept (f.signature.adapt operands) x = (.ok adapted, x) := by
    rw [hadapt]
    rfl
  exact run_bind_ok _ hpassed

/-- Running a closure makes a new scope below that of the closure, reads the operands, binds the formals and
evaluates the body. -/
theorem Body.run_closure (hlive : EvalM.session t x = (.ok session, x))
    (hscope : x.scopes[t]? = some scope) (caller : Caller E) :
    Body.run caller operands (.closure formals program t) x =
      (do
        let values ← Args.readRest .value 1 operands
        bindAll x.scopes.size (formals.zip values)
        caller.evaluate x.scopes.size program) (x.pushScope ⟨[], some t, scope.session⟩).1 := by
  have hchild : EvalM.child t x =
      (.ok x.scopes.size, (x.pushScope ⟨[], some t, scope.session⟩).1) := by
    rw [EvalM.child, hscope]
    rfl
  rw [run, run_bind_ok _ hlive, run_bind_ok _ hchild]

/-- A closure evaluates its body in a new scope that binds each formal to the value of the operand at its
position. -/
theorem Body.exists_run_closure_bound (hformals : formals.Nodup)
    (hcount : operands.length = formals.length)
    (hlive : EvalM.session t x = (.ok session, x)) (hscope : x.scopes[t]? = some scope)
    (hoperands : ∀ operand ∈ operands, ∀ p, operand ≠ .program p) (caller : Caller E) :
    ∃ values next table, List.Forall₂ Operand.Gives operands values ∧
      Table.BindsInPlace formals values table ∧
      Body.run caller operands (.closure formals program t) x =
        caller.evaluate x.scopes.size program
          (({ x with nextId := next } : World E).pushScope ⟨table, some t, scope.session⟩).1 := by
  obtain ⟨values, next, hvalues, hread⟩ :=
    exists_readRest_gives hoperands 1 (x.pushScope ⟨[], some t, scope.session⟩).1
  have hlength : values.length = formals.length := hvalues.length_eq.symm.trans hcount
  obtain ⟨table, hbinds, hbind⟩ := exists_bindAll_formals { x with nextId := next } hformals hlength
    (some t) scope.session
  refine ⟨values, next, table, hvalues, hbinds, ?_⟩
  rw [run_closure hlive hscope, run_bind_ok _ hread]
  exact run_bind_ok _ hbind

/-- An operand that is a program has no value, so a closure that is given one evaluates nothing. -/
theorem Body.exists_run_closure_refused (hlive : EvalM.session t x = (.ok session, x))
    (hscope : x.scopes[t]? = some scope) {i : Nat} {p : Program}
    (hoperand : operands[i]? = some (.program p))
    (hbefore : ∀ j < i, ∀ q, operands[j]? ≠ some (.program q)) (caller : Caller E) :
    ∃ next, Body.run caller operands (.closure formals program t) x =
      (.error (.typeMismatch (i + 1) "any value" "Program"),
        (({ x with nextId := next } : World E).pushScope ⟨[], some t, scope.session⟩).1) := by
  obtain ⟨next, hread⟩ := exists_readRest_refused hoperand hbefore 1
    (x.pushScope ⟨[], some t, scope.session⟩).1
  refine ⟨next, ?_⟩
  rw [run_closure hlive hscope, run_bind_error _ hread, Nat.add_comm 1]
  rfl

/-- A template evaluates its body with the operands put in for the formals, in the scope of the caller. -/
theorem Body.run_template (programs : List Program) (caller : Caller E) :
    Body.run caller (programs.map .program) (.template formals program) x =
      caller.evaluate caller.scope
        (program.substitute ((formals.map Token.word).zip programs)) x := by
  rw [run, run_bind_ok _ (readRest_programs 1 programs x)]

end

/-- What is put in for a formal is the operand at its position. -/
theorem Program.replacement?_formals {formals : List String} (hformals : formals.Nodup)
    {programs : List Program} {i : Nat} {name : String} {p : Program}
    (hname : formals[i]? = some name) (hp : programs[i]? = some p) :
    replacement? ((formals.map Token.word).zip programs) (.word name) = some p := by
  have hword : (formals.map Token.word)[i]? = some (.word name) := by
    rw [List.getElem?_map, hname, Option.map_some]
  have hentry : (.word name, p) ∈ (formals.map Token.word).zip programs :=
    List.mem_of_getElem? (List.getElem?_zip_eq_some.mpr ⟨hword, hp⟩)
  cases hreplaced : replacement? ((formals.map Token.word).zip programs) (.word name) with
  | none =>
    rw [replacement?, Option.map_eq_none_iff, List.find?_eq_none] at hreplaced
    simpa using hreplaced _ (List.mem_reverse.mpr hentry)
  | some q =>
    -- The formals are different, so there is only one position at which the name stands.
    obtain ⟨j, hj⟩ := List.mem_iff_getElem?.mp (mem_of_replacement? hreplaced)
    obtain ⟨hword', hq⟩ := List.getElem?_zip_eq_some.mp hj
    have hdifferent : (formals.map Token.word).Nodup := hformals.map fun _ _ => Token.word.inj
    have hlt := (List.getElem?_eq_some_iff.mp hword').1
    have hsame := (List.getElem?_inj hlt hdifferent).mp (hword'.trans hword.symm)
    rw [← hq, hsame, hp]

/-- Nothing is put in for any other token. -/
theorem Program.replacement?_eq_none {formals : List String} {programs : List Program} {u : Token}
    (hu : ∀ name ∈ formals, u ≠ .word name) :
    replacement? ((formals.map Token.word).zip programs) u = none := by
  cases hreplaced : replacement? ((formals.map Token.word).zip programs) u with
  | none => rfl
  | some p =>
    have hmem := (List.of_mem_zip (mem_of_replacement? hreplaced)).1
    obtain ⟨name, hname, rfl⟩ := List.mem_map.mp hmem
    exact absurd rfl (hu name hname)

variable [Embedding E]

/-- What a call of a closure comes to when the operands pass its signature. -/
structure Function.BindsOperands (f : Function E) (formals : List String) (program : Program)
    (t : ScopeId) (operands : List (Operand E)) (caller : Caller E) (x : World E) : Prop where
  /-- A closure whose session is gone binds nothing. -/
  lost : ∀ e, EvalM.session t x = (.error e, x) → f.apply caller operands x = (.error e, x)
  /-- Operands that are no programs have values, and the body is evaluated in a new scope that binds each
  formal to the value at its position. -/
  bound : ∀ session scope, EvalM.session t x = (.ok session, x) → x.scopes[t]? = some scope →
    (∀ operand ∈ operands, ∀ p, operand ≠ .program p) →
      ∃ values next table, List.Forall₂ Operand.Gives operands values ∧
        Table.BindsInPlace formals values table ∧
        f.apply caller operands x = caller.evaluate x.scopes.size program
          (({ x with nextId := next } : World E).pushScope ⟨table, some t, scope.session⟩).1
  /-- The first operand that is a program is refused. -/
  refused : ∀ session scope, EvalM.session t x = (.ok session, x) → x.scopes[t]? = some scope →
    ∀ i p, operands[i]? = some (.program p) →
      (∀ j < i, ∀ q, operands[j]? ≠ some (.program q)) →
        ∃ next, f.apply caller operands x =
          (.error (.typeMismatch (i + 1) "any value" "Program"),
            (({ x with nextId := next } : World E).pushScope ⟨[], some t, scope.session⟩).1)

/-- What a call of a template comes to when the operands pass its signature. -/
structure Function.SubstitutesOperands (f : Function E) (formals : List String) (program : Program)
    (programs : List Program) : Prop where
  count : programs.length = formals.length
  inPlace : ∀ (i : Nat) (name : String) (p : Program), formals[i]? = some name →
    programs[i]? = some p →
      Program.replacement? ((formals.map Token.word).zip programs) (.word name) = some p
  nothingElse : ∀ u, (∀ name ∈ formals, u ≠ .word name) →
    Program.replacement? ((formals.map Token.word).zip programs) u = none
  run : ∀ (caller : Caller E) (x : World E), f.apply caller (programs.map .program) x =
    caller.evaluate caller.scope (program.substitute ((formals.map Token.word).zip programs)) x

/-- A closure with different formals takes one operand for each, and a call binds them. -/
theorem Function.bindsOperands_of_adapt {f : Function E} {formals : List String} {program : Program}
    {t : ScopeId} {operands adapted : List (Operand E)} (hbody : f.body = .closure formals program t)
    (hformals : formals.Nodup) (hadapt : f.signature.adapt operands = .ok adapted) :
    adapted = operands ∧ operands.length = formals.length ∧
      ∀ caller x, f.BindsOperands formals program t operands caller x := by
  obtain ⟨id, label, body⟩ := f
  cases hbody
  obtain ⟨hcount, rfl⟩ := Signature.adapt_untyped_eq_ok_iff.mp hadapt
  refine ⟨rfl, hcount, fun caller x => ?_⟩
  have hrun := Function.apply_eq_run hadapt caller x
  constructor
  · intro e hlost
    rw [hrun, Body.run, run_bind_error _ hlost]
  · intro session scope hlive hscope hoperands
    rw [hrun]
    exact Body.exists_run_closure_bound hformals hcount hlive hscope hoperands caller
  · intro session scope hlive hscope i p hoperand hbefore
    rw [hrun]
    exact Body.exists_run_closure_refused hlive hscope hoperand hbefore caller

/-- A template with different formals takes one program for each, and a call puts them in. -/
theorem Function.substitutesOperands_of_adapt {f : Function E} {formals : List String}
    {program : Program} {operands adapted : List (Operand E)}
    (hbody : f.body = .template formals program) (hformals : formals.Nodup)
    (hadapt : f.signature.adapt operands = .ok adapted) :
    ∃ programs : List Program, operands = programs.map .program ∧ adapted = operands ∧
      f.SubstitutesOperands formals program programs := by
  obtain ⟨id, label, body⟩ := f
  cases hbody
  obtain ⟨programs, hcount, rfl, rfl⟩ := Signature.adapt_unevaluated_eq_ok_iff.mp hadapt
  refine ⟨programs, rfl, rfl, hcount, ?_, ?_, fun caller x => ?_⟩
  · exact fun i name p => Program.replacement?_formals hformals
  · exact fun u => Program.replacement?_eq_none
  · rw [Function.apply_eq_run hadapt, Body.run_template]

/-- In scripted worlds, evaluation comes to sound functions only: a second look at every value on the way
that lets these pass makes no difference. -/
theorem Scripted.interpretWatched_sound (hE : Embedding.PassesOn E) {w : World E} (hw : Scripted w)
    {watch : ScopeId → Value E → EvalM E (Value E)}
    (hwatch : ∀ s (a : Value E) u, a.All Function.HasSoundFormals → watch s a u = (.ok a, u))
    (s : ScopeId) (text : String) : interpretWatched watch s text w = interpret s text w := by
  have hpass : LetsPass watch := by
    intro s a u session _ ha
    refine hwatch s a u (ha.mono fun f hf formals hformals => ?_)
    have hdefined : f.body.IsDefined := by
      unfold Body.formals? at hformals
      split at hformals
      · next hbody => simp only [hbody, Body.IsDefined]
      · next hbody => simp only [hbody, Body.IsDefined]
      · cases hformals
    exact (hf hdefined).2.hasSoundFormals hE formals hformals
  by_cases hs : s < w.scopes.size
  · obtain ⟨i, hhouses⟩ := World.exists_houses hs
    exact (upholds_interpret hE hpass hhouses text w (.refl w) (hw.isAuthored hE)).1
  · have hlost := EvalM.session_of_not_lt hs
    rw [interpretWatched, interpret, run_bind_error _ hlost, run_bind_error _ hlost]

/-- What becomes of formals. A list of formals is accepted if and only if it is a pair of parentheses around
different tokens that can be bound, and these are the formals then; with any other list `lambda` and `macro`
refuse to make a function. In scripted worlds, all functions that are kept, that texts evaluate to, or that
come up on the way have sound formals. When a call of such a function passes its signature, there is one
operand for each formal. If it is a closure that is still alive, it evaluates its body in a new scope that
binds each formal, and nothing else, to the value of the operand at the same position, unless one of the
operands is a program, which has no value. If it is a template, the operand at the same position is put in
for each formal, and for no other token anything. -/
theorem formals_bound_in_place (hE : Embedding.PassesOn E) :
    (∀ (form : Program) (names : List String), parameterList form = .ok names ↔
      ∃ tokens, form = .left :: (tokens ++ [.right]) ∧ tokens.Nodup ∧
        (∀ t ∈ tokens, isValidSymbol t.text = true) ∧ names = tokens.map Token.text) ∧
    (∀ (caller : Caller E) (program : Program) (form : Form) (keyword : String)
        (make : List String → Body E), form.Makes caller.scope program keyword make →
      ∀ (id : Nat) (label : Option String) (parameters : Program) (x : World E),
        (∀ formals, parameterList parameters = .ok formals →
          let f : Function E :=
            ⟨x.nextId, some (Form.source keyword parameters program), make formals⟩
          f.HasSoundFormals ∧
            Function.apply ⟨id, label, .form form⟩ caller
                [.program parameters, .program program] x =
              (.ok (.function f), { x with nextId := x.nextId + 1 })) ∧
        ((∀ formals, parameterList parameters ≠ .ok formals) → ∃ e : Error,
          e.name = "InvalidFormalParameterList" ∧
            Function.apply ⟨id, label, .form form⟩ caller
                [.program parameters, .program program] x = (.error e, x))) ∧
    (∀ w : World E, Scripted w →
      (∀ (t : ScopeId) scope entry, w.scopes[t]? = some scope → entry ∈ scope.table →
        entry.2.All Function.HasSoundFormals) ∧
      ∀ s text, (∀ a, (interpret s text w).1 = .ok a → a.All Function.HasSoundFormals) ∧
        ∀ watch, (∀ s (a : Value E) u, a.All Function.HasSoundFormals → watch s a u = (.ok a, u)) →
          interpretWatched watch s text w = interpret s text w) ∧
    ∀ f : Function E, f.HasSoundFormals → ∀ operands adapted : List (Operand E),
      f.signature.adapt operands = .ok adapted →
      (∀ formals program t, f.body = .closure formals program t →
        adapted = operands ∧ operands.length = formals.length ∧
          ∀ caller x, f.BindsOperands formals program t operands caller x) ∧
      ∀ formals program, f.body = .template formals program →
        ∃ programs : List Program, operands = programs.map .program ∧ adapted = operands ∧
          f.SubstitutesOperands formals program programs := by
  refine ⟨fun form names => parameterList_eq_ok_iff_tokens, ?_, ?_, ?_⟩
  · intro caller program form keyword make hmakes id label parameters x
    refine ⟨fun formals hformals => ⟨hmakes.hasSoundFormals hformals _ _, ?_⟩, fun hnone => ?_⟩
    · rw [hmakes.apply_eq, makeFunction_eq hformals]
    · cases hfault : parameterList parameters with
      | ok formals => exact absurd hfault (hnone formals)
      | error fault => exact ⟨.invalidFormals fault, rfl, hmakes.apply_refused hfault id label x⟩
  · intro w hw
    have hauthored := hw.isAuthored hE
    refine ⟨fun t scope entry hscope hentry => ?_, fun s text => ⟨fun a ha => ?_, fun watch hwatch => ?_⟩⟩
    · exact (hauthored.tables hscope hentry).hasSoundFormals (hauthored.sessions hscope)
    · exact hauthored.hasSoundFormals_interpret hE ha
    · exact hw.interpretWatched_sound hE hwatch s text
  · intro f hsound operands adapted hadapt
    refine ⟨fun formals program t hbody => ?_, fun formals program hbody => ?_⟩
    · have hformals : f.body.formals? = some formals := by rw [hbody, Body.formals?]
      exact Function.bindsOperands_of_adapt hbody (hsound formals hformals).1 hadapt
    · have hformals : f.body.formals? = some formals := by rw [hbody, Body.formals?]
      exact Function.substitutesOperands_of_adapt hbody (hsound formals hformals).1 hadapt

/-- `(lambda (x y) y)` makes a closure that binds `x` to its first operand and `y` to its second. -/
theorem formals_bound_in_place_pair :
    let f : Function Empty := ⟨2, some "(lambda (x y) y)", .closure ["x", "y"] [.word "y"] 0⟩
    Embedding.PassesOn Empty ∧
      Function.call ⟨1, none, .form .lambda⟩ 0
          [.program [.left, .word "x", .word "y", .right], .program [.word "y"]] bindingSession =
        (.ok (.function f), { bindingSession with nextId := 3 }) ∧
      ∃ next table, Table.BindsInPlace ["x", "y"] [.int 3, .int 4] table ∧
        f.call 0 [.value (.int 3), .value (.int 4)] bindingSession =
          evaluate 1 [.word "y"]
            (({ bindingSession with nextId := next } : World Empty).pushScope ⟨table, some 0, 0⟩).1 := by
  have hE : Embedding.PassesOn Empty := fun e => e.elim
  obtain ⟨haccepted, hmade, -, hcalls⟩ := formals_bound_in_place hE
  have hformals : parameterList [.left, .word "x", .word "y", .right] = .ok ["x", "y"] :=
    (haccepted _ _).mpr ⟨[.word "x", .word "y"], rfl, by decide, by decide, rfl⟩
  obtain ⟨hsound, hlambda⟩ := (hmade (.of bindingSession 0) [.word "y"] .lambda "lambda" _ .lambda 1
    none _ bindingSession).1 _ hformals
  refine ⟨hE, hlambda, ?_⟩
  let operands : List (Operand Empty) := [.value (.int 3), .value (.int 4)]
  obtain ⟨-, -, hcall⟩ := (hcalls _ hsound operands _ rfl).1 _ _ _ rfl
  obtain ⟨values, next, table, hvalues, hbinds, hrun⟩ :=
    (hcall (.of bindingSession 0) bindingSession).bound _ _ rfl rfl (by simp [operands])
  change List.Forall₂ Operand.Gives [.value (.int 3), .value (.int 4)] values at hvalues
  cases hvalues with
  | cons hfirst hrest =>
    cases hrest with
    | cons hsecond hnone =>
      cases hfirst
      cases hsecond
      cases hnone
      exact ⟨next, table, hbinds, hrun⟩

/-- A closure takes any operand, so a program passes its signature, too. But a program has no value:
`(lambda (x) 5)` fails for it, although its body is 5 whatever `x` is bound to. Nor does a closure bind
anything after its session has ended. -/
theorem formals_bound_in_place_program :
    let f : Function Empty := ⟨2, some "(lambda (x) 5)", .closure ["x"] [.word "5"] 0⟩
    let unevaluated : List (Operand Empty) := [.program [.word "a"]]
    let evaluated : List (Operand Empty) := [.value (.int 7)]
    let ended : World Empty :=
      { bindingSession with sessions := #[⟨.empty, .disabled, false, 4, 0, true⟩] }
    Function.call ⟨1, none, .form .lambda⟩ 0
        [.program [.left, .word "x", .right], .program [.word "5"]] bindingSession =
      (.ok (.function f), { bindingSession with nextId := 3 }) ∧
    (∀ v : Value Empty, (evaluate 1 [.word "5"]
      (bindingSession.pushScope ⟨[("x", v)], some 0, 0⟩).1).1 = .ok (.int 5)) ∧
    (f.signature.adapt unevaluated = .ok unevaluated ∧
      (f.call 0 unevaluated bindingSession).1 = .error (.typeMismatch 1 "any value" "Program")) ∧
    f.signature.adapt evaluated = .ok evaluated ∧
      (f.call 0 evaluated ended).1 = .error (.domain .lostScope) :=
  ⟨rfl, fun _ => rfl, ⟨rfl, rfl⟩, rfl, rfl⟩

end FlatLisp
