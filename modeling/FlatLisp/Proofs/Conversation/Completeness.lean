import FlatLisp.Proofs.Balance
import FlatLisp.Proofs.Comments
import FlatLisp.Proofs.Conversation.Basic
import FlatLisp.Proofs.Grammar
import FlatLisp.Proofs.RoundTrip
import FlatLisp.Proofs.Sequencing

/-!
# Complete texts

The read loop counts the parentheses that are open in the text so far, and where a blank line asks for
it, adds as many to the end. Evaluation reads the longer text afresh. The parentheses are added behind
the end of a line, which ends comments too, so reading starts afresh there (`scan_append_line`), and
those that were missing complete the text. This fails where reading never comes to the end of the
line: behind a comment that meets a carriage return on its own. Such a text (`IsCutOff`) is submitted
as incomplete as it was.

The rest of the module follows the loop through a conversation. Its session listens (`World.Listens`),
and nothing that the loop does fails or stops that (`EvalM.Listening`), so what becomes of a submitted
text is known at every line.
-/

namespace FlatLisp

open Lexer Text ReadLoop

/-! ## Reading on behind a line -/

/-- A line has an end. -/
theorem dropWhile_append_line (cs : List Char) : (cs ++ ['\n']).dropWhile (· != '\n') ≠ [] := by
  intro h
  have hline := List.dropWhile_eq_nil_iff.mp h '\n' (by simp)
  simp at hline

/-- A line ends whatever the reader is in the middle of, so that reading starts afresh behind it;
but nothing is read behind a comment that meets a carriage return on its own. -/
theorem scan_append_line (pending : Pending) (cs ds : List Char) :
    scan true pending (cs ++ '\n' :: ds) = scan true pending (cs ++ ['\n']) ++
      bif (behindBroken pending.isComment (cs ++ ['\n'])).isEmpty then scan true (.word []) ds
      else [] := by
  -- The induction follows the reader through the text in front of the line.
  fun_induction scan true pending cs with
  | case1 letters =>
    have hline : isBlank '\n' = true := by decide
    simp only [List.nil_append, scan_blank hline]
    exact finish_append letters [] (scan true (.word []) ds)
  | case2 => rfl
  | case3 letters cs ih =>
    have hopen : '(' ≠ ';' := by decide
    simp only [Pending.isComment] at ih ⊢
    simp only [List.cons_append, scan, ↓reduceIte, behindBroken_false_cons hopen, ih]
    exact finish_append letters (.left :: scan true (.word []) (cs ++ ['\n'])) _
  | case4 letters cs hopen ih =>
    have hclose : ')' ≠ ';' := by decide
    simp only [Pending.isComment] at ih ⊢
    simp only [List.cons_append, scan, hopen, ↓reduceIte, behindBroken_false_cons hclose, ih]
    exact finish_append letters (.right :: scan true (.word []) (cs ++ ['\n'])) _
  | case5 letters c cs hopen hclose hblank ih =>
    have hc : c ≠ ';' := by
      intro heq
      subst heq
      exact absurd hblank (by decide)
    simp only [Pending.isComment] at ih ⊢
    simp only [List.cons_append, scan_blank hblank, behindBroken_false_cons hc, ih]
    exact finish_append letters (scan true (.word []) (cs ++ ['\n'])) _
  | case6 letters c cs hopen hclose hblank hcomment ih =>
    have hc : c = ';' := by simpa using hcomment
    subst hc
    simp only [Pending.isComment] at ih ⊢
    simp only [List.cons_append, scan, hopen, hclose, hblank, hcomment, ↓reduceIte, behindBroken, ih]
    exact finish_append letters (scan true .comment (cs ++ ['\n'])) _
  | case7 letters c cs hopen hclose hblank hcomment ih =>
    have hc : c ≠ ';' := by simpa using hcomment
    have hletter : IsLetter true c := ⟨by simpa using hblank, hopen, hclose, fun _ => hc⟩
    simp only [Pending.isComment] at ih ⊢
    simp only [List.cons_append, scan_letter hletter, behindBroken_false_cons hc]
    exact ih
  | case8 cs ih => exact ih
  | case9 cs ih => exact ih
  | case10 tail htail =>
    cases tail with
    | nil => rfl
    | cons c tail =>
      -- Here the reader gives up, with the line and all that follows it unread.
      have hc : c ≠ '\n' := fun heq => htail tail (by rw [heq])
      have hbroken : behindBroken true ('\r' :: c :: (tail ++ ['\n'])) =
          (c :: (tail ++ ['\n'])).dropWhile (· != '\n') := by
        simp [behindBroken, hc]
      have hunread : ((c :: (tail ++ ['\n'])).dropWhile (· != '\n')).isEmpty = false := by
        rw [List.isEmpty_eq_false_iff]
        exact dropWhile_append_line (c :: tail)
      simp only [Pending.isComment, List.cons_append, hbroken, hunread, cond_false, List.append_nil]
      simp [scan, hc]
  | case11 head cs hline hpair hreturn ih =>
    have hc : head ≠ '\r' := hreturn
    simp only [Pending.isComment] at ih ⊢
    simp only [List.cons_append]
    simp [scan, behindBroken, hc, ih]

/-- Closing parentheses are read as they stand. -/
theorem scan_closing (count : Nat) :
    scan true (.word []) (closing count).toList = List.replicate count .right := by
  rw [ReadLoop.closing, String.toList_ofList]
  induction count with
  | zero => rfl
  | succ count ih =>
    rw [List.replicate_succ, List.replicate_succ, ← ih]
    rfl

/-- A text is read to its end if nothing is broken off. -/
theorem unread_eq_empty_iff {text : String} :
    unread text = "" ↔ (behindBroken false text.toList).isEmpty = true := by
  rw [unread, ← String.toList_inj, String.toList_ofList, List.isEmpty_iff]
  rfl

/-- Parentheses behind a line are read if the lines are read to their end, and else nothing is. -/
theorem tokenize_append_closing (text : String) (count : Nat) :
    Program.tokenize true (text ++ "\n" ++ closing count) = Program.tokenize true (text ++ "\n") ++
      if unread (text ++ "\n") = "" then List.replicate count .right else [] := by
  have hscan := scan_append_line (.word []) text.toList (closing count).toList
  have hline : "\n".toList = ['\n'] := rfl
  simp only [Program.tokenize, String.toList_append, hline, List.append_assoc, List.cons_append,
    List.nil_append, unread_eq_empty_iff]
  rw [hscan, scan_closing, Pending.isComment, Bool.cond_eq_ite]

/-! ## Incomplete texts -/

/-- A text is refused as incomplete exactly if it leaves parentheses open. -/
theorem Program.parse_incomplete_iff {comments : Bool} {text : String} :
    (∃ report, parse comments text = .error report ∧ report.kind = .incomplete) ↔
      ∃ count, (tokenize comments text).missingRight = some (count + 1) := by
  unfold parse
  rcases validate_cases (tokenize comments text) with
    ⟨hmissing, hcheck⟩ | ⟨i, -, hmissing, hcheck⟩ | ⟨count, hmissing, -, hcheck⟩
  · simp [hmissing, hcheck, Bind.bind, Except.bind, Pure.pure, Except.pure]
  · simp [hmissing, hcheck, Bind.bind, Except.bind, ParseError.unexpectedClose]
  · simp [hmissing, hcheck, Bind.bind, Except.bind, ParseError.incomplete]

namespace ReadLoop

/-- Parentheses were added to the text and are not read, as a comment in front of them meets a
carriage return on its own. -/
def IsCutOff (source : String) : Prop :=
  source ≠ unclosed source ∧ unread (unclosed source) ≠ ""

namespace Reading

/-- The parentheses that the loop adds are read if the text in front of them is read to its end. -/
theorem tokenize_text_append (r : Reading) (count : Nat) :
    Program.tokenize true (r.text ++ closing count) = Program.tokenize true r.text ++
      if unread r.text = "" then List.replicate count .right else [] :=
  tokenize_append_closing (r.pending ++ r.line) count

/-- What the loop adds to a text is something. -/
theorem text_append_ne (r : Reading) (count : Nat) : r.text ++ closing (count + 1) ≠ r.text := by
  intro h
  have hlist := congrArg String.toList h.symm
  rw [String.toList_append, List.self_eq_append_right, closing, String.toList_ofList] at hlist
  cases hlist

/-- Where the loop adds parentheses, they complete the text if it is read to its end. -/
theorem isValid_submit {r : Reading} {source : String} (h : r.reaction = .submit source)
    (hadded : source ≠ unclosed source) (hread : unread (unclosed source) = "") :
    (Program.tokenize true source).isValid = true := by
  obtain ⟨htext, ⟨count, hcount, hsource, -⟩ | ⟨-, hsource⟩⟩ := submit_cases h
  · rw [htext] at hread
    rw [hsource, tokenize_text_append, if_pos hread]
    exact Program.missingRight_eq_some_iff.mp hcount
  · exact absurd (hsource.trans htext.symm) hadded

/-- What the loop submits leaves parentheses open exactly if those that it added are not read. -/
theorem submit_unfinished_iff {r : Reading} {source : String} (h : r.reaction = .submit source) :
    (∃ count, missing source = some (count + 1)) ↔ IsCutOff source := by
  constructor
  · rintro ⟨n, hn⟩
    have hadded : source ≠ unclosed source := by
      obtain ⟨htext, ⟨count, -, hsource, -⟩ | ⟨hfinished, hsource⟩⟩ := submit_cases h
      · rw [htext, hsource]
        exact r.text_append_ne count
      · exact absurd (hsource ▸ hn) (hfinished n)
    refine ⟨hadded, fun hread => ?_⟩
    have hvalid := isValid_submit h hadded hread
    rw [Program.isValid_iff, ← Program.missingRight, ← missing, hn] at hvalid
    cases hvalid
  · rintro ⟨hadded, hunread⟩
    obtain ⟨htext, ⟨count, hcount, hsource, -⟩ | ⟨-, hsource⟩⟩ := submit_cases h
    · -- The loop has found open parentheses, and reading comes no further with those it adds.
      rw [htext] at hunread
      refine ⟨count, ?_⟩
      rw [hsource, missing, tokenize_text_append, if_neg hunread, List.append_nil]
      exact hcount
    · exact absurd (hsource.trans htext.symm) hadded

end Reading

/-- What is pending after an input was there with it. -/
theorem Reading.mem_text_of_mem_next {r : Reading} {next : String}
    (hnext : r.reaction.next r.pending = some next) {c : Char} (hc : c ∈ next.toList) :
    c ∈ r.text.toList := by
  have hkept := congrArg String.toList r.released_append_next
  rw [hnext, Option.getD_some, String.toList_append, String.toList_append] at hkept
  have hmem : c ∈ r.pending.toList ++ r.share.toList := hkept ▸ List.mem_append_right _ hc
  rw [text, String.append_assoc, String.toList_append]
  refine (List.mem_append.mp hmem).elim (List.mem_append_left _) fun hshare => ?_
  rw [share] at hshare
  split at hshare
  · cases hshare
  · exact List.mem_append_right _ hshare

/-- The characters of a text are those of the lines that it was made of. -/
theorem mem_line_of_mem_text {pending : String} {inputs : List Input} {r : Reading}
    (h : r ∈ readings pending inputs) {c : Char} (hc : c ∈ r.text.toList) :
    c ∈ pending.toList ∨ c = '\n' ∨ ∃ input ∈ inputs, c ∈ input.text.toList := by
  induction inputs generalizing pending with
  | nil => cases h
  | cons input inputs ih =>
    let first : Reading := ⟨pending, input⟩
    have hfirst : ∀ {c}, c ∈ first.text.toList →
        c ∈ pending.toList ∨ c = '\n' ∨ ∃ other ∈ input :: inputs, c ∈ other.text.toList := by
      intro c hc
      simp only [Reading.text, String.toList_append, List.mem_append, or_assoc] at hc
      refine hc.imp_right fun hc => hc.symm.imp List.mem_singleton.mp fun hc => ?_
      exact ⟨input, List.mem_cons_self, hc⟩
    rw [readings] at h
    rcases List.mem_cons.mp h with rfl | h
    · exact hfirst hc
    · cases hnext : (react pending input).next pending with
      | none => simp [hnext] at h
      | some next =>
        rw [hnext] at h
        rcases ih h with hpending | hc | ⟨other, hother, hc⟩
        · exact hfirst (Reading.mem_text_of_mem_next (r := first) hnext hpending)
        · exact .inr (.inl hc)
        · exact .inr (.inr ⟨other, List.mem_cons_of_mem input hother, hc⟩)

end ReadLoop

/-! ## The session of the loop -/

variable {E : Type}

/-- The scope is in a session that handles comments and goes on, and all that the world keeps is
balanced. -/
structure World.Listens (w : World E) (root : ScopeId) : Prop where
  balanced : w.IsBalanced
  session : ∃ session, w.sessionOf? root = some session ∧ session.comments = true ∧
    session.ended = false

namespace World.Listens

variable {w : World E} {root : ScopeId}

/-- Text may be printed. -/
theorem print (h : w.Listens root) (text : String) : (EvalM.print text w).2.Listens root :=
  ⟨⟨h.balanced.tables, h.balanced.hosts, h.balanced.sessions⟩, h.session⟩

/-- Functions may be made. -/
theorem newId (h : w.Listens root) : (EvalM.newId w).2.Listens root :=
  ⟨⟨h.balanced.tables, h.balanced.hosts, h.balanced.sessions⟩, h.session⟩

/-- Balanced values may be bound. -/
theorem bind (h : w.Listens root) (s : ScopeId) (name : String) {v : Value E} (hv : v.IsBalanced) :
    (w.bind s name v).Listens root := by
  refine ⟨h.balanced.bind s name hv, ?_⟩
  obtain ⟨session, hsession, hsettings⟩ := h.session
  obtain ⟨scope, hscope, hown⟩ := Option.bind_eq_some_iff.mp hsession
  have hafter : ∃ after, (w.bind s name v).scopes[root]? = some after ∧
      after.session = scope.session := by
    rw [World.getElem?_bind, hscope]
    split
    · exact ⟨_, rfl, rfl⟩
    · exact ⟨scope, rfl, rfl⟩
  obtain ⟨after, hafter, hsame⟩ := hafter
  exact ⟨session, World.sessionOf?_eq_some hafter (hsame ▸ hown), hsettings⟩

variable [Embedding E]

/-- Programs may be evaluated. -/
theorem evaluate (hE : Embedding.IsParametric E) (h : w.Listens root) (p : Program) :
    (FlatLisp.evaluate root p w).2.Listens root := by
  obtain ⟨session, hsession, hsettings⟩ := h.session
  exact ⟨h.balanced.evaluate hE root p, session,
    World.sessionOf?_evaluate hE.actsThroughCaller hsession root p, hsettings⟩

/-- How the loop's session reads a text. -/
theorem interpret_eq (h : w.Listens root) (text : String) :
    interpret root text w =
      match Program.parse true text with
      | .ok p => FlatLisp.evaluate root p w
      | .error report => (.error (.malformedProgram report), w) := by
  obtain ⟨session, hsession, hcomments, hended⟩ := h.session
  have hfound : EvalM.session root w = (.ok session, w) := by
    simp only [EvalM.session, hsession, hended, Bool.false_eq_true, ↓reduceIte]
  rw [interpret, Correspondence.run_bind_ok _ hfound, hcomments]
  cases Program.parse true text <;> rfl

/-- A balanced program comes to a balanced value, and it meets a report on parentheses only if a
source that it loads cannot be read. -/
theorem evaluate_outcome (hE : Embedding.IsParametric E) (h : w.Listens root) {p : Program}
    (hp : p.isValid = true) :
    (∀ v, (FlatLisp.evaluate root p w).1 = .ok v → v.IsBalanced) ∧
      ∀ report, (FlatLisp.evaluate root p w).1 = .error (.malformedProgram report) →
        w.LoadedUnreadable (FlatLisp.evaluate root p w).2 report := by
  have houtcome := outcomes_evaluateOr hE h.balanced FlatLisp.evaluate root hp
  generalize FlatLisp.evaluate root p w = o, evaluateOr FlatLisp.evaluate w.budget root p w = o'
    at houtcome
  cases houtcome with
  | ok hv =>
    refine ⟨fun v hresult => ?_, nofun⟩
    cases hresult
    exact balanceContract.allows_iff.mp (Contract.values_iff.mp hv).2
  | failed he =>
    refine ⟨nofun, fun report hresult => ?_⟩
    cases hresult
    exact he.2.2.2 report rfl
  | cut _ he => exact he.elim

/-- Texts may be evaluated, and their values are balanced. -/
theorem interpret (hE : Embedding.IsParametric E) (h : w.Listens root) (text : String) :
    (FlatLisp.interpret root text w).2.Listens root ∧
      ∀ v, (FlatLisp.interpret root text w).1 = .ok v → v.IsBalanced := by
  rw [h.interpret_eq]
  cases hparse : Program.parse true text with
  | ok p => exact ⟨h.evaluate hE p, (h.evaluate_outcome hE (Program.isValid_of_parse hparse)).1⟩
  | error report => exact ⟨h, nofun⟩

end World.Listens

/-- The computation ends well and leaves the loop listening. -/
def EvalM.Listening (root : ScopeId) (act : EvalM E Unit) : Prop :=
  ∀ w : World E, w.Listens root → ∃ w', act w = (.ok (), w') ∧ w'.Listens root

namespace EvalM.Listening

variable {root : ScopeId} {act next : EvalM E Unit}

theorem pure : Listening root (Pure.pure () : EvalM E Unit) :=
  fun w hw => ⟨w, rfl, hw⟩

/-- One computation may follow another. -/
theorem seq (hact : Listening root act) (hnext : Listening root next) :
    Listening root (act >>= fun _ => next) := by
  intro w hw
  obtain ⟨w₁, hrun, hw₁⟩ := hact w hw
  rw [Correspondence.run_bind_ok _ hrun]
  exact hnext w₁ hw₁

theorem print (text : String) : Listening root (EvalM.print text : EvalM E Unit) :=
  fun _ hw => ⟨_, rfl, hw.print text⟩

theorem bind (name : String) {v : Value E} (hv : v.IsBalanced) :
    Listening root (EvalM.bind root name v) :=
  fun _ hw => ⟨_, rfl, hw.bind root name hv⟩

theorem bindAll {entries : List (String × Value E)} (h : ∀ entry ∈ entries, entry.2.IsBalanced) :
    Listening root (FlatLisp.bindAll root entries) := by
  induction entries with
  | nil => exact pure
  | cons entry entries ih =>
    exact (bind entry.1 (h entry List.mem_cons_self)).seq
      (ih fun entry hentry => h entry (List.mem_cons_of_mem _ hentry))

theorem installNamed (names : List String) {body : Body E} (hbody : body.IsBalanced) :
    Listening root (FlatLisp.installNamed root names body) := by
  intro w hw
  have hnew : EvalM.newId w = (.ok w.nextId, (EvalM.newId w).2) := rfl
  rw [FlatLisp.installNamed, Correspondence.run_bind_ok _ hnew]
  refine bindAll (fun entry hentry => ?_) _ hw.newId
  obtain ⟨name, -, rfl⟩ := List.mem_map.mp hentry
  exact .function hbody

theorem installForms (forms : List Form) :
    Listening root (FlatLisp.installForms root forms : EvalM E Unit) := by
  induction forms with
  | nil => exact pure
  | cons form forms ih =>
    have hform : Body.IsBalanced (.form form : Body E) := trivial
    exact (installNamed form.names hform).seq ih

theorem installBuiltins (bs : List Builtin) :
    Listening root (FlatLisp.installBuiltins root bs : EvalM E Unit) := by
  induction bs with
  | nil => exact pure
  | cons b bs ih =>
    have hbuiltin : Body.IsBalanced (.builtin b : Body E) := trivial
    exact (installNamed [b.name] hbuiltin).seq ih

variable [Embedding E]

/-- A text may be evaluated, if what follows ends well with its value or failure. -/
theorem attempt (hE : Embedding.IsParametric E) (text : String)
    {f : Except Error (Value E) → EvalM E Unit}
    (hok : ∀ v : Value E, v.IsBalanced → Listening root (f (.ok v)))
    (herror : ∀ e, Listening root (f (.error e))) :
    Listening root (ReadLoop.attempt (interpret root text) >>= f) := by
  intro w hw
  obtain ⟨hafter, hvalue⟩ := hw.interpret hE text
  have hrun : ReadLoop.attempt (interpret root text) w =
      (.ok (interpret root text w).1, (interpret root text w).2) := rfl
  rw [Correspondence.run_bind_ok _ hrun]
  cases hresult : (interpret root text w).1 with
  | ok v => exact hok v (hvalue v hresult) _ hafter
  | error e => exact herror e _ hafter

theorem submit (hE : Embedding.IsParametric E) (source : String) :
    Listening root (ReadLoop.submit root source : EvalM E Unit) := by
  refine attempt hE source (fun v hv => ?_) fun e => print _
  dsimp only
  split
  · exact (print _).seq (bind "_" hv)
  · exact pure.seq (bind "_" hv)

theorem loadAtStart (hE : Embedding.IsParametric E) (path : String) :
    Listening root (ReadLoop.loadAtStart root path : EvalM E Unit) :=
  attempt hE _ (fun _ _ => print _) fun _ => print _

/-- Whatever an input asks for may be done. -/
theorem perform (hE : Embedding.IsParametric E) (reaction : Reaction) :
    Listening root (reaction.perform root : EvalM E Unit) := by
  cases reaction with
  | skip | wait | discard => exact pure
  | help => exact print _
  | environment => exact fun w hw => ⟨_, rfl, hw.print _⟩
  | quit => exact print _
  | submit source => exact submit hE source

/-- Any number of inputs may be taken. -/
theorem replay (hE : Embedding.IsParametric E) (rs : List Reading) :
    Listening root (ReadLoop.replay root rs : EvalM E Unit) := by
  induction rs with
  | nil => exact pure
  | cons r rs ih => exact (print _).seq ((perform hE r.reaction).seq ih)

end EvalM.Listening

/-- A session that handles comments can start, and then it listens. -/
theorem World.IsBalanced.exists_listens {w : World E} (hw : w.IsBalanced) {host : Host E}
    (hhost : host.IsBalanced) (loader : Loader) (maxDepth : Nat) :
    ∃ root w', FlatLisp.openRoot host loader true maxDepth w = (.ok root, w') ∧ w'.Listens root := by
  let root : ScopeId := w.scopes.size
  let w₁ : World E := (FlatLisp.openBare host loader true maxDepth w).2
  have hopen : FlatLisp.openBare host loader true maxDepth w = (.ok root, w₁) := rfl
  have hsession : w₁.sessionOf? root = some ⟨host, loader, true, maxDepth, 0, false⟩ := by
    have hscope : w₁.scopes[root]? = some ⟨[], none, w.sessions.size⟩ := Array.getElem?_push_size
    exact World.sessionOf?_eq_some hscope Array.getElem?_push_size
  have hbare : w₁.Listens root := ⟨hw.openBare hhost loader true maxDepth, _, hsession, rfl, rfl⟩
  obtain ⟨w₂, hforms, hw₂⟩ := EvalM.Listening.installForms Form.all w₁ hbare
  obtain ⟨w₃, hbuiltins, hw₃⟩ := EvalM.Listening.installBuiltins Builtin.all w₂ hw₂
  refine ⟨root, w₃, ?_, hw₃⟩
  rw [FlatLisp.openRoot, Correspondence.run_bind_ok _ hopen, Correspondence.run_bind_ok _ hforms,
    Correspondence.run_bind_ok _ hbuiltins]
  rfl

namespace ReadLoop

variable [Embedding E]

/-- The loop can start, and then it listens. -/
theorem exists_start (hE : Embedding.IsParametric E) (loader : Loader) (path : Option String) :
    ∃ root w, (start loader path World.empty : Except Error ScopeId × World E) = (.ok root, w) ∧
      w.Listens root := by
  let w₀ : World E := (EvalM.print banner World.empty).2
  have hprint : EvalM.print banner World.empty = (.ok (), w₀) := rfl
  have hgreeted : Driven w₀ := .fresh rfl rfl
  obtain ⟨registry, w₁, hstandard, hregistry, hdriven⟩ := hgreeted.exists_standard
  obtain ⟨root, w₂, hopen, hw₂⟩ :=
    (hdriven.isBalanced hE).exists_listens hregistry.host loader defaultMaxDepth
  rw [start, Correspondence.run_bind_ok _ hprint, Correspondence.run_bind_ok _ hstandard,
    Correspondence.run_bind_ok _ hopen]
  cases path with
  | none => exact ⟨root, w₂, rfl, hw₂⟩
  | some path =>
    obtain ⟨w₃, hload, hw₃⟩ := EvalM.Listening.loadAtStart hE path w₂ hw₂
    dsimp only
    rw [Correspondence.run_bind_ok _ hload]
    exact ⟨root, w₃, rfl, hw₃⟩

/-- When the loop comes to an input, it listens and does what the input asks for, and then goes on. -/
theorem run_at (hE : Embedding.IsParametric E) {root : ScopeId} {w : World E} (hw : w.Listens root)
    {pending : String} {inputs : List Input} {before after : List Reading} {r : Reading}
    (h : readings pending inputs = before ++ r :: after) :
    ∃ u, (replay root before >>= fun _ => EvalM.print (prompt r.pending)) w = (.ok (), u) ∧
      u.Listens root ∧
      run root pending inputs w =
        (r.reaction.perform root >>= fun _ => replay root after >>= fun _ =>
          conclude (remainder pending inputs)) u := by
  obtain ⟨u, hrun, hu⟩ :=
    ((EvalM.Listening.replay hE before).seq (.print (prompt r.pending))) w hw
  refine ⟨u, hrun, hu, ?_⟩
  have hrest := Correspondence.run_bind_ok (fun _ => r.reaction.perform root >>= fun _ =>
    replay root after >>= fun _ => conclude (remainder pending inputs)) hrun
  rw [← hrest, run_eq_replay, h, replay_append, replay]
  simp only [bind_assoc]

/-- What the read loop hands over for evaluation. The loop starts, whatever source it is to load at
first. When it comes to a line for which it submits a text, it has this text evaluated and goes on. The
text is evaluated if it has a program, and then a report on parentheses is about a source that was
loaded and cannot be read; else what is wrong with it is reported, and nothing changes. The report is
that the text is incomplete exactly if parentheses were added to it behind a comment that meets a
carriage return on its own. Else those that were added complete the text. In lines without carriage
returns there is no such comment. -/
theorem conversation_submits_complete (hE : Embedding.IsParametric E) (loader : Loader)
    (path : Option String) (inputs : List Input) :
    ∃ root w, (start loader path World.empty : Except Error ScopeId × World E) = (.ok root, w) ∧
      ∀ before r after source, readings "" inputs = before ++ r :: after →
        r.reaction = .submit source →
        (∃ u, (replay root before >>= fun _ => EvalM.print (prompt r.pending)) w = (.ok (), u) ∧
          run root "" inputs w =
            (submit root source >>= fun _ => replay root after >>= fun _ =>
              conclude (remainder "" inputs)) u ∧
          (∀ p, Program.parse true source = .ok p →
            interpret root source u = evaluate root p u ∧
            ∀ report, (interpret root source u).1 = .error (.malformedProgram report) →
              u.LoadedUnreadable (interpret root source u).2 report) ∧
          ∀ report, Program.parse true source = .error report →
            interpret root source u = (.error (.malformedProgram report), u)) ∧
        ((∃ report, Program.parse true source = .error report ∧ report.kind = .incomplete) ↔
          IsCutOff source) ∧
        (source ≠ unclosed source → ¬IsCutOff source →
          (Program.tokenize true source).isValid = true) ∧
        ((∀ input ∈ inputs, '\r' ∉ input.text.toList) → ¬IsCutOff source) := by
  obtain ⟨root, w, hstart, hw⟩ := exists_start hE loader path
  refine ⟨root, w, hstart, fun before r after source hreadings hsubmit => ⟨?_, ?_, ?_, ?_⟩⟩
  · obtain ⟨u, hrun, hu, hrest⟩ := run_at hE hw hreadings
    rw [hsubmit] at hrest
    refine ⟨u, hrun, hrest, fun p hparse => ?_, fun report hparse => ?_⟩
    · rw [hu.interpret_eq, hparse]
      exact ⟨rfl, (hu.evaluate_outcome hE (Program.isValid_of_parse hparse)).2⟩
    · rw [hu.interpret_eq, hparse]
  · rw [Program.parse_incomplete_iff]
    exact Reading.submit_unfinished_iff hsubmit
  · intro hadded hread
    exact Reading.isValid_submit hsubmit hadded (not_not.mp (not_and.mp hread hadded))
  · intro hlines hcut
    have htext : unclosed source = r.text := (Reading.submit_cases hsubmit).1
    have hmem : r ∈ readings "" inputs := by simp [hreadings]
    have hreturn : '\r' ∉ r.text.toList := by
      intro hc
      rcases mem_line_of_mem_text hmem hc with hc | hc | ⟨line, hline, hc⟩
      · cases hc
      · cases hc
      · exact hlines line hline hc
    apply hcut.2
    rw [htext, unread, behindBroken_of_not_mem hreturn, String.ofList_nil]

/-- A parenthesis that is added behind a comment completes the text. -/
theorem conversation_submits_complete_comment :
    ∃ root w u, (start .disabled none World.empty : Except Error ScopeId × World Empty) =
        (.ok root, w) ∧
      (replay root [⟨"", .line "(+ 1 ;x"⟩] >>= fun _ =>
        EvalM.print (prompt "(+ 1 ;x\n")) w = (.ok (), u) ∧
      interpret root "(+ 1 ;x\n\n)" u =
        evaluate root [.left, .word "+", .word "1", .right] u ∧
      ¬IsCutOff "(+ 1 ;x\n\n)" := by
  have hreadings : readings "" [.line "(+ 1 ;x", .line ""] =
      [⟨"", .line "(+ 1 ;x"⟩] ++ ⟨"(+ 1 ;x\n", .line ""⟩ :: [] := by decide +kernel
  have hsubmit : Reading.reaction ⟨"(+ 1 ;x\n", .line ""⟩ = .submit "(+ 1 ;x\n\n)" := by
    decide +kernel
  have hparse : Program.parse true "(+ 1 ;x\n\n)" = .ok [.left, .word "+", .word "1", .right] := rfl
  obtain ⟨root, w, hstart, h⟩ := conversation_submits_complete Embedding.isParametric_empty .disabled
    none [.line "(+ 1 ;x", .line ""]
  obtain ⟨⟨u, hu, -, hinterpret, -⟩, -, -, hread⟩ := h _ _ _ _ hreadings hsubmit
  exact ⟨root, w, u, hstart, hu, (hinterpret _ hparse).1, hread (by decide +kernel)⟩

/-- A parenthesis that is added behind a comment that meets a carriage return on its own is not read,
and the text is refused as incomplete. -/
theorem conversation_submits_loneReturn :
    readings "" [.line "(+ 1 2 ;x\ry", .line ""] =
        [⟨"", .line "(+ 1 2 ;x\ry"⟩, ⟨"(+ 1 2 ;x\ry\n", .line ""⟩] ∧
      Reading.reaction ⟨"(+ 1 2 ;x\ry\n", .line ""⟩ = .submit "(+ 1 2 ;x\ry\n\n)" ∧
      ∃ root w u report, (start .disabled none World.empty : Except Error ScopeId × World Empty) =
          (.ok root, w) ∧
        (replay root [⟨"", .line "(+ 1 2 ;x\ry"⟩] >>= fun _ =>
          EvalM.print (prompt "(+ 1 2 ;x\ry\n")) w = (.ok (), u) ∧
        interpret root "(+ 1 2 ;x\ry\n\n)" u = (.error (.malformedProgram report), u) ∧
        report.kind = .incomplete ∧ report.message = "missing 1 closing parenthesis" := by
  have hreadings : readings "" [.line "(+ 1 2 ;x\ry", .line ""] =
      [⟨"", .line "(+ 1 2 ;x\ry"⟩] ++ ⟨"(+ 1 2 ;x\ry\n", .line ""⟩ :: [] := by decide +kernel
  let report : ParseError := .incomplete [.left, .word "+", .word "1", .word "2"] 1
  have hparse : Program.parse true "(+ 1 2 ;x\ry\n\n)" = .error report := rfl
  refine ⟨hreadings, by decide +kernel, ?_⟩
  obtain ⟨root, w, hstart, hw⟩ := exists_start Embedding.isParametric_empty .disabled none
  obtain ⟨u, hrun, hu, -⟩ := run_at Embedding.isParametric_empty hw hreadings
  refine ⟨root, w, u, report, hstart, hrun, ?_, rfl, by decide +kernel⟩
  rw [hu.interpret_eq, hparse]

end ReadLoop

end FlatLisp
