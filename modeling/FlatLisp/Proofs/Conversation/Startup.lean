import FlatLisp.Proofs.Adaptation
import FlatLisp.Proofs.Opening
import FlatLisp.Proofs.RoundTrip
import FlatLisp.ReadLoop

/-!
# The source named on the command line

The loop does not hand the path of a first source to the loader. It writes the path into the text of a
program, `(from path)`, and has the text read. A path that is a single lexeme is found again as it was, so
it is what the loader is asked for. In any other path there is something that the reader takes for syntax:
blanks divide it, a `;` hides the rest of it, and its parentheses make forms of it that are evaluated.
-/

namespace FlatLisp.ReadLoop

open Correspondence

variable {E : Type}

/-- The text that the loop makes of a path. -/
def loadText (path : String) : String :=
  "(from " ++ path ++ ")"

/-! ## Reading the text -/

/-- The text starts with `(` and `from`, and then the path is read. -/
theorem tokenize_loadText (path : String) : Program.tokenize true (loadText path) =
    .left :: .word "from" :: Lexer.scan true (.word []) (path.toList ++ [')']) := by
  have hspace : Text.isBlank ' ' = true := by decide
  rw [Program.tokenize, loadText, String.toList_append, String.toList_append, List.append_assoc]
  rfl

/-- A lexeme is read as it is. -/
theorem tokenize_loadText_of_isLexeme {path : String} (h : (Token.word path).IsLexeme true) :
    Program.tokenize true (loadText path) = [.left, .word "from", .word path, .right] := by
  let tail : Program := [.word path, .right]
  have htokens : ∀ t ∈ tail, t.IsLexeme true := by
    simp only [tail, List.forall_mem_cons]
    exact ⟨h, trivial, nofun⟩
  have htext : tail.render.toList = path.toList ++ [')'] := by
    simp [tail, Program.render, Program.renderAfter, Program.spaced, Token.text]
  have hread := tokenize_render htokens
  rw [Program.tokenize, htext] at hread
  rw [tokenize_loadText, hread]

/-- A program that starts with `(` and a word starts with a list of that word and more, if its parentheses
match. -/
theorem exists_list_of_isValid {keyword : String} {ts : List Token}
    (h : Program.isValid (.left :: .word keyword :: ts) = true) :
    ∃ operands rest : Forest, .left :: .word keyword :: ts =
      Forest.tokens (.list (.leaf keyword :: operands) :: rest) := by
  have hforest := Program.tokens_forest h
  generalize Program.forest (.left :: .word keyword :: ts) = f at hforest
  match f with
  | [] => cases hforest
  | .leaf word :: f => cases hforest
  | .list [] :: f => cases hforest
  | .list (.list children :: f) :: f' => cases hforest
  | .list (.leaf word :: operands) :: rest =>
    have hword : word = keyword := by
      rw [Forest.tokens_list_cons, Forest.tokens_leaf_cons] at hforest
      cases hforest
      rfl
    exact ⟨operands, rest, hword ▸ hforest.symm⟩

/-- A path that is read as an operand is a lexeme. -/
theorem isLexeme_of_operands {path : String} {operands rest : Forest}
    (h : Program.tokenize true (loadText path) =
      Forest.tokens (.list (.leaf "from" :: operands) :: rest))
    (hoperands : operands = [.leaf path]) : (Token.word path).IsLexeme true := by
  refine isLexeme_of_mem_tokenize (loadText path) _ ?_
  rw [h, hoperands]
  simp

/-- The path is all that is read behind `from` exactly if it is a lexeme. -/
theorem operands_iff_isLexeme {path : String} {operands rest : Forest}
    (h : Program.tokenize true (loadText path) =
      Forest.tokens (.list (.leaf "from" :: operands) :: rest)) :
    (operands = [.leaf path] ∧ rest = []) ↔ (Token.word path).IsLexeme true := by
  refine ⟨fun hoperands => isLexeme_of_operands h hoperands.1, fun hpath => ?_⟩
  rw [tokenize_loadText_of_isLexeme hpath] at h
  have hforest := congrArg Program.forest h
  have hread : [.left, .word "from", .word path, .right] =
      Forest.tokens [.list [.leaf "from", .leaf path]] := by simp
  rw [hread, Program.forest_tokens, Program.forest_tokens] at hforest
  simp only [List.cons.injEq, Tree.list.injEq, true_and] at hforest
  exact ⟨hforest.1.symm, hforest.2.symm⟩

/-- The text of a lexeme is a program. -/
theorem parse_loadText_of_isLexeme {path : String} (h : (Token.word path).IsLexeme true) :
    Program.parse true (loadText path) = .ok [.left, .word "from", .word path, .right] := by
  rw [Program.parse, tokenize_loadText_of_isLexeme h]
  rfl

/-- A program is read from the tokens of its text. -/
theorem tokenize_eq_of_parse {comments : Bool} {text : String} {p : Program}
    (h : Program.parse comments text = .ok p) : Program.tokenize comments text = p := by
  change ((Program.tokenize comments text).validate >>= fun _ =>
    pure (Program.tokenize comments text)) = _ at h
  cases hcheck : (Program.tokenize comments text).validate with
  | error report =>
    rw [hcheck] at h
    cases h
  | ok _ =>
    rw [hcheck] at h
    cases h
    rfl

/-- What is read from the text of a path starts with a list of `from` and operands. -/
theorem exists_operands {path : String} {p : Program}
    (h : Program.parse true (loadText path) = .ok p) :
    ∃ operands rest : Forest, p = Forest.tokens (.list (.leaf "from" :: operands) :: rest) := by
  have hvalid := Program.isValid_of_parse h
  rw [← tokenize_eq_of_parse h, tokenize_loadText] at hvalid ⊢
  exact exists_list_of_isValid hvalid

variable [Embedding E]

/-! ## Evaluating the program -/

/-- Ask the loader for a path, and evaluate the program in the text that it has. -/
def readSource (loader : Loader) (root : ScopeId) (path : String) : EvalM E (Value E) := do
  let text ← EvalM.load loader path
  let program ← EvalM.ofExcept ((Program.parse true text).mapError .malformedProgram)
  evaluate root program

/-- What the form `from` does with the operands that it is given. -/
def loadOperands (loader : Loader) (root : ScopeId) : Forest → EvalM E (Value E)
  | [.leaf word] => readSource loader root word
  | [.list children] =>
    throw (.sourceUnavailable (Program.render (Tree.tokens (.list children))) .notASingleToken)
  | operands => throw (.arityMismatch (.exactly 1) operands.length)

/-- What becomes of a program that starts with a list of `from` and operands. If nothing follows, the list is
the program; otherwise the list and the rest of the program are evaluated in turn, one level deeper. -/
def loadInFront (loader : Loader) (root : ScopeId) (operands : Forest) : Forest → EvalM E (Value E)
  | [] => EvalM.nested root (loadOperands loader root operands)
  | rest => EvalM.nested root do
    let v ← EvalM.nested root (loadOperands loader root operands)
    evaluateSequence evaluate root v (rest.map Tree.tokens)

section

variable {w : World E} {root : ScopeId} {i : Nat} {session : Session E} {loader : Loader}

/-- A root in which `from` can load: two evaluations can be nested, and its session reads comments. -/
structure LoadsFrom (loader : Loader) (w : World E) (root : ScopeId) (i : Nat)
    (session : Session E) : Prop where
  room : w.HasRoom root i session
  deep : session.depth + 1 < session.maxDepth
  live : session.ended = false
  loader : session.loader = loader
  comments : session.comments = true
  means : w.Means root "from" .load

omit [Embedding E] in
/-- The session of a scope that has room and has not ended. -/
theorem session_eq_of_hasRoom (h : w.HasRoom root i session) (hlive : session.ended = false) :
    EvalM.session root w = (.ok session, w) := by
  obtain ⟨scope, hscope, rfl⟩ := h.houses
  simp only [EvalM.session, World.sessionOf?_eq_some hscope h.own, hlive, Bool.false_eq_true,
    ↓reduceIte]

/-- Calling the form `from`. -/
theorem call_load (hlive : EvalM.session root w = (.ok session, w))
    (hcomments : session.comments = true) (operands : Forest) :
    Function.call ⟨0, none, .form .load⟩ root ((operands.map Tree.tokens).map .program) w =
      loadOperands session.loader root operands w := by
  match operands with
  | [] => rfl
  | [.leaf word] =>
    change (Form.loadSource root word >>= evaluateWithin w.budget root) w =
      readSource session.loader root word w
    rw [Form.loadSource, bind_assoc, run_bind_ok _ hlive, bind_assoc, hcomments, readSource]
    cases hload : session.loader.load word with
    | error e =>
      have hrefused := EvalM.load_eq hload w
      rw [run_bind_error _ hrefused, run_bind_error _ hrefused]
    | ok text =>
      have hanswered := EvalM.load_eq hload w
      rw [run_bind_ok _ hanswered, run_bind_ok _ hanswered]
      cases Program.parse true text <;> rfl
  | [.list children] =>
    -- A list has two tokens at least, its parentheses, so it is never taken for a path.
    obtain ⟨t, ts, htokens⟩ : ∃ t ts, Tree.tokens (.list children) = .left :: t :: ts := by
      rw [Tree.tokens]
      cases Forest.tokens children <;> simp
    simp only [loadOperands, List.map_cons, List.map_nil, htokens]
    rfl
  | first :: second :: operands =>
    let passed : List (Operand E) := ((first :: second :: operands).map Tree.tokens).map .program
    have hcount : passed.length = operands.length + 2 := by simp [passed]
    have hadapt : (Form.load.typed : Typed E).signature.adapt passed =
        .error (.arityMismatch (.exactly 1) (operands.length + 2)) := by
      change (if Arity.accepts (.exactly 1) passed.length
        then Signature.adaptFrom none 1 [.program] passed
        else Except.error (Error.arityMismatch (.exactly 1) passed.length)) = _
      rw [hcount, if_neg (by simp [Arity.accepts])]
    rw [Function.call_eq_of_typed? (f := Form.load.typed) rfl, hadapt]
    cases first <;> rfl

omit [Embedding E] in
/-- What follows a computation depends on its outcome alone. -/
theorem run_bind_congr {α β : Type} {m m' : EvalM E α} {u : World E} (h : m u = m' u)
    (f : α → EvalM E β) : (m >>= f) u = (m' >>= f) u := by
  change ExceptT.bindCont f (m u).1 (m u).2 = ExceptT.bindCont f (m' u).1 (m' u).2
  rw [h]

/-- Forms in turn are evaluated with all the fuel that there is, since each of them leaves sessions as deep
as they are. -/
theorem evaluateSequence_evaluateWithin (hE : Embedding.ActsThroughCaller E) {fuel : Nat}
    (hfuel : w.budget = fuel) (s : ScopeId) (v : Value E) (ps : List Program) :
    evaluateSequence (evaluateWithin fuel) s v ps w = evaluateSequence evaluate s v ps w := by
  induction ps generalizing w v with
  | nil => rfl
  | cons p ps ih =>
    have hfirst : evaluateWithin fuel s p w = evaluate s p w := by rw [evaluate, hfuel]
    have hsessions := sessions_evaluate hE w s p
    rw [evaluateSequence, evaluateSequence, run_bind_congr hfirst]
    rcases hrun : evaluate s p w with ⟨outcome, w₁⟩
    cases outcome with
    | error e => rw [run_bind_error _ hrun, run_bind_error _ hrun]
    | ok a =>
      rw [hrun] at hsessions
      rw [run_bind_ok _ hrun, run_bind_ok _ hrun]
      exact ih (by rw [World.budget, hsessions, ← World.budget, hfuel]) a

namespace LoadsFrom

omit [Embedding E] in
/-- One level down, if three evaluations can be nested. -/
theorem deeper (h : LoadsFrom loader w root i session) (hdeep : session.depth + 2 < session.maxDepth) :
    LoadsFrom loader (w.setDepth i (session.depth + 1)) root i
      { session with depth := session.depth + 1 } :=
  ⟨h.room.deeper h.deep, hdeep, h.live, h.loader, h.comments, h.means.setDepth i _⟩

/-- Evaluating a list that starts with `from` is a load, one level down. -/
theorem evaluate_list (h : LoadsFrom loader w root i session) (operands : Forest) :
    evaluate root (Tree.tokens (.list (.leaf "from" :: operands))) w =
      EvalM.nested root (loadOperands loader root operands) w := by
  have hroom := h.room.deeper h.deep
  have hcall := call_load (session_eq_of_hasRoom hroom h.live) h.comments operands
  obtain ⟨scope, hscope, hown⟩ := h.room.houses
  subst hown
  rw [h.room.evaluate_keyword h.deep h.means (.inl rfl) (hcall.trans (Prod.mk.eta).symm)]
  rw [EvalM.nested_of_free _ hscope h.room.own h.room.free, h.loader]

/-- Evaluating a program that starts with such a list. -/
theorem evaluate_tokens (hE : Embedding.ActsThroughCaller E) (h : LoadsFrom loader w root i session)
    (hdeep : session.depth + 2 < session.maxDepth) (operands rest : Forest) :
    evaluate root (Forest.tokens (.list (.leaf "from" :: operands) :: rest)) w =
      loadInFront loader root operands rest w := by
  cases rest with
  | nil =>
    have htokens : Forest.tokens [.list (.leaf "from" :: operands)] =
        Tree.tokens (.list (.leaf "from" :: operands)) := List.append_nil _
    rw [htokens, h.evaluate_list]
    rfl
  | cons next rest =>
    -- The program is a sequence now, so the list is one of its forms and is evaluated a level further down.
    obtain ⟨fuel, hfuel⟩ := h.room.exists_fuel
    have hbudget : (w.setDepth i (session.depth + 1)).budget = fuel := by
      have hnested := h.room.budget_deeper
      omega
    have hfirst := (h.deeper hdeep).evaluate_list operands
    obtain ⟨scope, hscope, rfl⟩ := h.room.houses
    rw [h.room.evaluate_eq hfuel, step_tokens _ _ (by simp),
      evaluateSequence_evaluateWithin hE hbudget, List.map_cons, evaluateSequence,
      run_bind_congr hfirst, loadInFront, EvalM.nested_of_free _ hscope h.room.own h.room.free]
    exact List.cons_ne_nil _ _

end LoadsFrom

end

/-! ## Starting -/

/-- Say how a load went. -/
def announce (path : String) (act : EvalM E (Value E)) : EvalM E Unit := do
  match ← attempt act with
  | .ok _ => EvalM.print ("Loaded " ++ path ++ "\n")
  | .error e => EvalM.print (errorLine e)

omit [Embedding E] in
/-- What is said depends on the outcome alone. -/
theorem announce_congr (path : String) {act act' : EvalM E (Value E)} {u : World E}
    (h : act u = act' u) : announce path act u = announce path act' u := by
  have hattempt : attempt act u = attempt act' u := by rw [attempt, attempt, h]
  exact run_bind_congr hattempt _

omit [Embedding E] in
/-- Saying how a load went asks for nothing. -/
theorem requested_announce (path : String) (act : EvalM E (Value E)) (root : ScopeId) (u : World E) :
    ((announce path act >>= fun _ => pure root) u).2.requested = (act u).2.requested := by
  match hrun : act u with
  | (.ok v, u₁) =>
    have hattempt : attempt act u = (.ok (.ok v), u₁) := by rw [attempt, hrun]
    rw [announce, bind_assoc, run_bind_ok _ hattempt]
    rfl
  | (.error e, u₁) =>
    have hattempt : attempt act u = (.ok (.error e), u₁) := by rw [attempt, hrun]
    rw [announce, bind_assoc, run_bind_ok _ hattempt]
    rfl

/-- Without a path the loop has a root in which `from` can load, and has asked for nothing. With a path it
goes on with what its text evaluates to. -/
theorem exists_started (loader : Loader) :
    ∃ root w i session, (start loader none World.empty : Except Error ScopeId × World E) =
        (.ok root, w) ∧ w.printed = banner ∧ w.requested = [] ∧
      LoadsFrom loader w root i session ∧ session.depth + 2 < session.maxDepth ∧
      ∀ path, start loader (some path) World.empty =
        (announce path (interpret root (loadText path)) >>= fun _ => pure root) w := by
  let w₀ : World E := (EvalM.print banner World.empty).2
  have hprint : EvalM.print banner World.empty = (.ok (), w₀) := rfl
  obtain ⟨registry, next, hstandard, -⟩ := Registry.exists_standard w₀
  obtain ⟨w, hopen, hsession, hprinted, hrequested, hmeans⟩ :=
    exists_openRoot registry.host loader true defaultMaxDepth { w₀ with nextId := next }
  let session : Session E := ⟨registry.host, loader, true, defaultMaxDepth, 0, false⟩
  have hdepth : session.depth + 2 < session.maxDepth := show 0 + 2 < 4096 by decide
  obtain ⟨i, hroom⟩ := World.HasRoom.of_sessionOf? hsession (show 0 < 4096 by decide)
  have hnone : (start loader none World.empty : Except Error ScopeId × World E) =
      (.ok w₀.scopes.size, w) := by
    rw [start, run_bind_ok _ hprint, run_bind_ok _ hstandard, run_bind_ok _ hopen]
    rfl
  have hsome : ∀ path, (start loader (some path) World.empty : Except Error ScopeId × World E) =
      (loadAtStart w₀.scopes.size path >>= fun _ => pure w₀.scopes.size) w := by
    intro path
    rw [start, run_bind_ok _ hprint, run_bind_ok _ hstandard, run_bind_ok _ hopen]
  refine ⟨_, w, i, session, hnone, hprinted.trans rfl, hrequested, ?_, hdepth, hsome⟩
  exact ⟨hroom, Nat.lt_of_succ_lt hdepth, rfl, rfl, rfl, hmeans .load "from" (by decide)⟩

/-- What the text of a path comes to in the root of the loop. -/
theorem LoadsFrom.interpret_eq {loader : Loader} {w : World E} {root : ScopeId} {i : Nat}
    {session : Session E} (h : LoadsFrom loader w root i session) (text : String) :
    interpret root text w =
      match Program.parse true text with
      | .ok p => evaluate root p w
      | .error report => (.error (.malformedProgram report), w) := by
  rw [interpret, run_bind_ok _ (session_eq_of_hasRoom h.room h.live), h.comments]
  cases Program.parse true text <;> rfl

/-- The path that `from` asks the loader for, if its operands are right. -/
def asked : Forest → List String
  | [.leaf word] => [word]
  | _ => []

theorem asked_eq_singleton_iff {operands : Forest} {path : String} :
    asked operands = [path] ↔ operands = [.leaf path] := by
  match operands with
  | [] => simp [asked]
  | [.leaf word] => simp [asked]
  | [.list children] => simp [asked]
  | .leaf word :: second :: operands => simp [asked]
  | .list children :: second :: operands => simp [asked]

/-- A loader that refuses every path is asked once at most. -/
theorem LoadsFrom.exists_loadInFront_disabled {w : World E} {root : ScopeId} {i : Nat}
    {session : Session E} (h : LoadsFrom .disabled w root i session)
    (hdeep : session.depth + 2 < session.maxDepth) (operands rest : Forest) :
    ∃ e u, loadInFront .disabled root operands rest w = (.error e, u) ∧
      u.requested = asked operands ++ w.requested := by
  have hrefused : ∀ v : World E, ∃ e, loadOperands .disabled root operands v =
      (.error e, { v with requested := asked operands ++ v.requested }) := by
    intro v
    match operands with
    | [] => exact ⟨_, rfl⟩
    | [.leaf word] =>
      have hload : Loader.load .disabled word = .error (.sourceUnavailable word .disabled) := rfl
      exact ⟨_, run_bind_error _ (EvalM.load_eq hload v)⟩
    | [.list children] => exact ⟨_, rfl⟩
    | .leaf word :: second :: operands => exact ⟨_, rfl⟩
    | .list children :: second :: operands => exact ⟨_, rfl⟩
  have hnested : ∀ {v : World E} {own : Session E}, LoadsFrom .disabled v root i own →
      ∃ e u, EvalM.nested root (loadOperands .disabled root operands) v = (.error e, u) ∧
        u.requested = asked operands ++ v.requested := by
    intro v own hv
    obtain ⟨scope, hscope, rfl⟩ := hv.room.houses
    obtain ⟨e, hrun⟩ := hrefused (v.setDepth scope.session (own.depth + 1))
    rw [EvalM.nested_of_free _ hscope hv.room.own hv.room.free, hrun]
    exact ⟨e, _, rfl, rfl⟩
  match rest with
  | [] => exact hnested h
  | next :: rest =>
    obtain ⟨e, u, hrun, hrequested⟩ := hnested (h.deeper hdeep)
    obtain ⟨scope, hscope, rfl⟩ := h.room.houses
    refine ⟨e, u.setDepth scope.session session.depth, ?_, hrequested⟩
    rw [loadInFront, EvalM.nested_of_free _ hscope h.room.own h.room.free, run_bind_error _ hrun]
    exact List.cons_ne_nil _ _

/-- What becomes of the path that the loop starts with. If it is a lexeme, the loader is asked for it, and the
program in the text that the loader has is all that is evaluated. If the text of the path has parentheses
without partners, that is reported. Otherwise the text reads as a list of `from` and operands with a rest
behind it, where the path is the only operand and the rest is empty exactly if the path is a lexeme. The
operands that were read decide what is loaded, if anything, and then the rest is evaluated, too. A loader that
refuses every path shows the difference: it is asked for the path if and only if that is a lexeme. -/
theorem startup_path_read_as_text (hE : Embedding.ActsThroughCaller E) (path : String) :
    (∀ loader, ∃ root w, (start loader none World.empty : Except Error ScopeId × World E) =
        (.ok root, w) ∧ w.printed = banner ∧ w.requested = [] ∧
      ((Token.word path).IsLexeme true → start loader (some path) World.empty =
        (announce path (EvalM.nested root (readSource loader root path)) >>= fun _ => pure root) w) ∧
      (∀ report, Program.parse true (loadText path) = .error report →
        start loader (some path) World.empty =
          (announce path (throw (.malformedProgram report)) >>= fun _ => pure root) w) ∧
      ∀ p, Program.parse true (loadText path) = .ok p → ∃ operands rest : Forest,
        p = Forest.tokens (.list (.leaf "from" :: operands) :: rest) ∧
        ((operands = [.leaf path] ∧ rest = []) ↔ (Token.word path).IsLexeme true) ∧
        start loader (some path) World.empty =
          (announce path (loadInFront loader root operands rest) >>= fun _ => pure root) w) ∧
    ((start .disabled (some path) World.empty : Except Error ScopeId × World E).2.requested = [path] ↔
      (Token.word path).IsLexeme true) := by
  constructor
  · intro loader
    obtain ⟨root, w, i, session, hstart, hprinted, hrequested, hloads, hdeep, hpath⟩ :=
      exists_started (E := E) loader
    have hprogram : ∀ p, Program.parse true (loadText path) = .ok p →
        ∃ operands rest : Forest, p = Forest.tokens (.list (.leaf "from" :: operands) :: rest) ∧
          ((operands = [.leaf path] ∧ rest = []) ↔ (Token.word path).IsLexeme true) ∧
          start loader (some path) World.empty =
            (announce path (loadInFront loader root operands rest) >>= fun _ => pure root) w := by
      intro p hparse
      obtain ⟨operands, rest, rfl⟩ := exists_operands hparse
      refine ⟨operands, rest, rfl, operands_iff_isLexeme (tokenize_eq_of_parse hparse), ?_⟩
      rw [hpath]
      refine run_bind_congr (announce_congr path ?_) _
      rw [hloads.interpret_eq, hparse]
      exact hloads.evaluate_tokens hE hdeep operands rest
    refine ⟨root, w, hstart, hprinted, hrequested, fun hlexeme => ?_, fun report hparse => ?_,
      hprogram⟩
    · obtain ⟨operands, rest, -, hiff, hrun⟩ := hprogram _ (parse_loadText_of_isLexeme hlexeme)
      obtain ⟨rfl, rfl⟩ := hiff.mpr hlexeme
      exact hrun
    · rw [hpath]
      refine run_bind_congr (announce_congr path ?_) _
      rw [hloads.interpret_eq, hparse]
      rfl
  · obtain ⟨root, w, i, session, -, -, hrequested, hloads, hdeep, hpath⟩ :=
      exists_started (E := E) .disabled
    rw [hpath, requested_announce, hloads.interpret_eq]
    cases hparse : Program.parse true (loadText path) with
    | error report =>
      refine ⟨fun h => ?_, fun hlexeme => ?_⟩
      · simp [hrequested] at h
      · cases hparse.symm.trans (parse_loadText_of_isLexeme hlexeme)
    | ok p =>
      obtain ⟨operands, rest, rfl⟩ := exists_operands hparse
      have hread := tokenize_eq_of_parse hparse
      obtain ⟨e, u, hrun, hasked⟩ := hloads.exists_loadInFront_disabled hdeep operands rest
      have hevaluate := hloads.evaluate_tokens hE hdeep operands rest
      simp only [hevaluate, hrun, hasked, hrequested, List.append_nil]
      refine ⟨fun h => isLexeme_of_operands hread (asked_eq_singleton_iff.mp h), fun hlexeme => ?_⟩
      rw [((operands_iff_isLexeme hread).mpr hlexeme).1, asked]

/-- The path `a.sx` is a lexeme, so it is what is loaded. -/
theorem startup_path_read_as_text_lexeme :
    Embedding.ActsThroughCaller Empty ∧ (Token.word "a.sx").IsLexeme true ∧
      let loader : Loader := .memory [("a.sx", "1")]
      ∃ root w, (start loader none World.empty : Except Error ScopeId × World Empty) = (.ok root, w) ∧
        start loader (some "a.sx") World.empty = (announce "a.sx"
          (EvalM.nested root (readSource loader root "a.sx")) >>= fun _ => pure root) w := by
  have hE := Embedding.isParametric_empty.actsThroughCaller
  have hlexeme : (Token.word "a.sx").IsLexeme true := by decide
  obtain ⟨root, w, hstart, -, -, hload, -⟩ :=
    (startup_path_read_as_text hE "a.sx").1 (.memory [("a.sx", "1")])
  exact ⟨hE, hlexeme, root, w, hstart, hload hlexeme⟩

/-- A path with a blank in it is not what is loaded: although the loader has a text for `a b.sx`, it is not
asked for anything. Part of the path `a) (print 7` is evaluated, after what is loaded for another part. -/
theorem startup_path_read_as_text_blank :
    let loader : Loader := .memory [("a b.sx", "1"), ("a", "2")]
    let started (path : String) : World Empty := (start loader (some path) World.empty).2
    loader.load "a b.sx" = .ok "1" ∧ (started "a b.sx").requested = [] ∧
      (started "a b.sx").printed =
        banner ++ "Error: ArityMismatch: expected exactly 1 arguments, got 2\n" ∧
      (started "a) (print 7").requested = ["a"] ∧
      (started "a) (print 7").printed = banner ++ "7\nLoaded a) (print 7\n" :=
  ⟨rfl, by decide +kernel, by decide +kernel, by decide +kernel, by decide +kernel⟩

end FlatLisp.ReadLoop
