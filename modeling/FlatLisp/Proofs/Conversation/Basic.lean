import FlatLisp.Proofs.Simulation.Correspondence
import FlatLisp.ReadLoop
import Mathlib.Data.List.DropRight

/-!
# The course of a conversation

What the read loop does about an input depends on the input and the text that is pending, and never on
the world. So the lines that it reads, what is pending at each prompt and what it submits are known
before anything is evaluated: `readings` lists the inputs with what was pending in front of them, and
`run_eq_replay` says that the loop prompts for each of them and reacts to it, and does nothing else.

`Reading.Gets` lists all that can come of one input. From it follows what one input does to the texts
that are submitted, discarded and pending, and by induction what a conversation does: every line ends
up in one of these texts, in order, but for blank lines and commands on their own.
-/

namespace FlatLisp.ReadLoop

open Text

/-! ## One input -/

/-- What the loop looks at to find a command: the line without the blanks at its ends. -/
def bare (line : String) : String :=
  String.ofList (trim line.toList)

/-- Nothing is left of a line without its blank ends if, and only if, it is blank. -/
theorem bare_eq_empty_iff {line : String} : bare line = "" ↔ isBlankLine line = true := by
  have hempty : bare line = "" ↔ trim line.toList = [] := by
    rw [bare, ← String.toList_inj, String.toList_ofList]
    rfl
  rw [hempty, isBlankLine, trim, List.reverse_eq_nil_iff, List.dropWhile_eq_nil_iff]
  simp only [List.mem_reverse, List.all_eq_true]
  constructor
  · intro h c hc
    by_contra hblank
    have hkept : line.toList.dropWhile isBlank ≠ [] := by
      intro hnil
      exact hblank (List.dropWhile_eq_nil_iff.mp hnil c hc)
    -- The first character that is left would have to be blank.
    have hfirst := List.head_dropWhile_not isBlank hkept
    rw [h _ (List.head_mem hkept)] at hfirst
    cases hfirst
  · intro h c hc
    exact h c ((List.dropWhile_sublist isBlank).subset hc)

/-- The text of a line. An interrupt has none. -/
def Input.text : Input → String
  | line text => text
  | interrupt => ""

/-- An input that the loop has read, with the text that was pending then. -/
structure Reading where
  pending : String
  input : Input
deriving DecidableEq, Repr

namespace Reading

/-- What the loop does about the input. -/
def reaction (r : Reading) : Reaction :=
  react r.pending r.input

/-- The line that was read. -/
def line (r : Reading) : String :=
  r.input.text

/-- All the text there is, with the line. -/
def text (r : Reading) : String :=
  r.pending ++ r.line ++ "\n"

/-- The input is not part of a text: it is an interrupt, or nothing is pending, and it is blank or a
command. -/
def IsAside (r : Reading) : Prop :=
  r.input = .interrupt ∨ r.pending = "" ∧
    (isBlankLine r.line = true ∨ bare r.line ∈ [":help", ":env", ":quit", ":exit"])

instance (r : Reading) : Decidable r.IsAside :=
  inferInstanceAs (Decidable (_ ∨ _ ∧ (_ ∨ _)))

/-- The input ends the loop: nothing is pending, and it is one of the commands for that. -/
def IsLast (r : Reading) : Prop :=
  r.pending = "" ∧ bare r.line ∈ [":quit", ":exit"]

/-- An input that ends the loop is not part of a text. -/
theorem IsLast.isAside {r : Reading} (h : r.IsLast) : r.IsAside := by
  have hline := h.2
  refine .inr ⟨h.1, .inr ?_⟩
  simp only [List.mem_cons] at hline ⊢
  exact .inr (.inr hline)

/-- What is part of a text is a line. -/
theorem input_eq_line {r : Reading} (h : ¬r.IsAside) : r.input = .line r.line := by
  obtain ⟨pending, input⟩ := r
  cases input with
  | line line => rfl
  | interrupt => exact absurd (.inl rfl) h

/-- An interrupt does not end the loop. -/
theorem not_isLast_of_interrupt {r : Reading} (h : r.input = .interrupt) : ¬r.IsLast := by
  intro hlast
  have hline := hlast.2
  rw [line, h] at hline
  exact absurd hline (by decide)

/-- All that can come of an input. -/
inductive Gets (r : Reading) : Reaction → Prop
  | discard (interrupted : r.input = .interrupt) : Gets r .discard
  | skip (alone : r.pending = "") (blank : bare r.line = "") : Gets r .skip
  | help (alone : r.pending = "") (command : bare r.line = ":help") : Gets r .help
  | environment (alone : r.pending = "") (command : bare r.line = ":env") : Gets r .environment
  | quit (alone : r.pending = "") (command : bare r.line = ":quit" ∨ bare r.line = ":exit") :
      Gets r .quit
  /-- Parentheses are open, and more may follow. -/
  | wait (kept : ¬r.IsAside) {count : Nat} (unfinished : missing r.text = some (count + 1))
      (busy : r.pending = "" ∨ isBlankLine r.line = false) : Gets r (.wait r.text)
  /-- Parentheses are open, and a blank line behind others closes them. -/
  | close (kept : ¬r.IsAside) {count : Nat} (unfinished : missing r.text = some (count + 1))
      (behind : r.pending ≠ "") (blank : isBlankLine r.line = true) :
      Gets r (.submit (r.text ++ closing (count + 1)))
  | submit (kept : ¬r.IsAside) (finished : ∀ count, missing r.text ≠ some (count + 1)) :
      Gets r (.submit r.text)

/-- What comes of a line that is added to the pending text. -/
theorem gets_extend {r : Reading} (hkept : ¬r.IsAside) : r.Gets (extend r.pending r.line) := by
  have htext : r.pending ++ r.line ++ "\n" = r.text := rfl
  match hcount : missing r.text with
  | some (count + 1) =>
    simp only [extend, htext, hcount]
    split
    · next hblank => exact .close hkept hcount hblank.1 hblank.2
    · next hmore =>
      refine .wait hkept hcount ?_
      rw [← Bool.not_eq_true]
      exact (not_and_or.mp hmore).imp_left not_not.mp
  | some 0 =>
    simp only [extend, htext, hcount]
    exact .submit hkept (by simp [hcount])
  | none =>
    simp only [extend, htext, hcount]
    exact .submit hkept (by simp [hcount])

/-- What comes of any line. -/
theorem gets_line (pending line : String) :
    Gets ⟨pending, .line line⟩ (react pending (.line line)) := by
  have hextend := gets_extend (r := ⟨pending, .line line⟩)
  unfold react
  dsimp only
  split
  · next halone =>
    unfold command?
    rw [← bare]
    split
    · next hline => exact .skip halone hline
    · next hline => exact .help halone hline
    · next hline => exact .environment halone hline
    · next hline => exact .quit halone (.inl hline)
    · next hline => exact .quit halone (.inr hline)
    · next hblank hhelp henv hquit hexit =>
      refine hextend fun haside => ?_
      rcases haside with hinterrupt | ⟨-, hline | hline⟩
      · cases hinterrupt
      · exact hblank (bare_eq_empty_iff.mpr hline)
      · simp only [List.mem_cons, List.not_mem_nil, or_false] at hline
        rcases hline with hline | hline | hline | hline
        · exact hhelp hline
        · exact henv hline
        · exact hquit hline
        · exact hexit hline
  · next hpending =>
    refine hextend fun haside => ?_
    rcases haside with hinterrupt | ⟨halone, -⟩
    · cases hinterrupt
    · exact hpending halone

/-- What comes of any input. -/
theorem gets_reaction (r : Reading) : r.Gets r.reaction := by
  obtain ⟨pending, input⟩ := r
  cases input with
  | line line => exact gets_line pending line
  | interrupt => exact .discard rfl

end Reading

/-! ## What a reaction does -/

namespace Reaction

/-- The text that is pending after a reaction, or nothing if the loop ends with it. -/
def next (pending : String) : Reaction → Option String
  | skip | help | environment => some pending
  | quit => none
  | wait text => some text
  | submit _ | discard => some ""

/-- The text that is submitted, if one is. -/
def source? : Reaction → Option String
  | submit source => some source
  | _ => none

variable {E : Type} [Embedding E]

/-- Show or evaluate what the reaction asks for. -/
def perform (root : ScopeId) : Reaction → EvalM E Unit
  | skip | wait _ | discard => return ()
  | help => EvalM.print helpText
  | environment => do EvalM.print (environmentText (← EvalM.bindings root))
  | quit => EvalM.print farewell
  | submit source => ReadLoop.submit root source

end Reaction

variable {E : Type} [Embedding E]

/-- Taking an input is performing the reaction to it, and what is pending then does not depend on the
world. -/
theorem turn_eq (root : ScopeId) (pending : String) (input : Input) :
    (turn root pending input : EvalM E (Option String)) = do
      (react pending input).perform root
      return (react pending input).next pending := by
  unfold turn
  cases react pending input with
  | environment => exact (bind_assoc _ _ _).symm
  | _ => rfl

/-! ## Many inputs -/

/-- The inputs that the loop reads, until there are no more or one of them ends it. -/
def readings : (pending : String) → List Input → List Reading
  | _, [] => []
  | pending, input :: inputs =>
    ⟨pending, input⟩ ::
      match (react pending input).next pending with
      | some pending => readings pending inputs
      | none => []

/-- The text that is pending when there is no more input, or nothing if a line has ended the loop. -/
def remainder : (pending : String) → List Input → Option String
  | pending, [] => some pending
  | pending, input :: inputs =>
    match (react pending input).next pending with
    | some pending => remainder pending inputs
    | none => none

/-- Prompt for each input and react to it. -/
def replay (root : ScopeId) : List Reading → EvalM E Unit
  | [] => return ()
  | r :: rs => do
    EvalM.print (prompt r.pending)
    r.reaction.perform root
    replay root rs

/-- Prompt once more and find that there is no more input, unless the loop has ended. -/
def conclude : Option String → EvalM E Unit
  | some pending => EvalM.print (prompt pending ++ farewell)
  | none => return ()

/-- The loop prompts for each input that it reads and reacts to it. -/
theorem run_eq_replay (root : ScopeId) (pending : String) (inputs : List Input) :
    (run root pending inputs : EvalM E Unit) =
      replay root (readings pending inputs) >>= fun _ => conclude (remainder pending inputs) := by
  induction inputs generalizing pending with
  | nil => exact (pure_bind _ _).symm
  | cons input inputs ih =>
    rw [run, readings, remainder, replay, turn_eq]
    cases (react pending input).next pending with
    | some next => simp [Reading.reaction, ih, bind_assoc]
    | none => simp [Reading.reaction, replay, conclude]

/-- Inputs are taken one after the other. -/
theorem replay_append (root : ScopeId) (rs rs' : List Reading) :
    (replay root (rs ++ rs') : EvalM E Unit) = replay root rs >>= fun _ => replay root rs' := by
  induction rs with
  | nil => exact (pure_bind _ _).symm
  | cons r rs ih => simp only [List.cons_append, replay, ih, bind_assoc]

/-- Inputs are read in order, and all of them unless one ends the loop. -/
theorem map_input_readings (pending : String) (inputs : List Input) :
    (readings pending inputs).map Reading.input <+: inputs ∧
      ((remainder pending inputs).isSome = true →
        (readings pending inputs).map Reading.input = inputs) := by
  induction inputs generalizing pending with
  | nil => exact ⟨List.prefix_refl [], fun _ => rfl⟩
  | cons input inputs ih =>
    rw [readings, remainder]
    cases (react pending input).next pending with
    | none => exact ⟨⟨inputs, rfl⟩, nofun⟩
    | some next =>
      obtain ⟨horder, hall⟩ := ih next
      exact ⟨(List.prefix_cons_inj input).mpr horder, fun h => congrArg (input :: ·) (hall h)⟩

/-- The loop ends with a line that tells it to, and with nothing else. -/
theorem Reading.next_eq_none_iff {r : Reading} : r.reaction.next r.pending = none ↔ r.IsLast := by
  have hgets := r.gets_reaction
  generalize r.reaction = reaction at hgets
  cases hgets with
  | discard interrupted =>
    exact ⟨nofun, fun hlast => absurd hlast (not_isLast_of_interrupt interrupted)⟩
  | skip alone blank => simp [IsLast, blank, Reaction.next]
  | help alone command => simp [IsLast, command, Reaction.next]
  | environment alone command => simp [IsLast, command, Reaction.next]
  | quit alone command => simpa [IsLast, alone, Reaction.next] using command
  | wait kept => exact ⟨nofun, fun hlast => absurd hlast.isAside kept⟩
  | close kept => exact ⟨nofun, fun hlast => absurd hlast.isAside kept⟩
  | submit kept => exact ⟨nofun, fun hlast => absurd hlast.isAside kept⟩

/-- Nothing is read or pending behind a line that ends the loop. -/
theorem readings_isLast {pending : String} {inputs : List Input} {before after : List Reading}
    {r : Reading} (h : readings pending inputs = before ++ r :: after) (hlast : r.IsLast) :
    after = [] ∧ remainder pending inputs = none := by
  induction inputs generalizing pending before with
  | nil => simp [readings] at h
  | cons input inputs ih =>
    rw [readings] at h
    rw [remainder]
    cases before with
    | nil =>
      obtain ⟨rfl, hafter⟩ := List.cons.inj h
      have hnext := Reading.next_eq_none_iff.mpr hlast
      rw [Reading.reaction] at hnext
      rw [hnext] at hafter ⊢
      exact ⟨hafter.symm, rfl⟩
    | cons first before =>
      have hrest := (List.cons.inj h).2
      cases hnext : (react pending input).next pending with
      | none => simp [hnext] at hrest
      | some next =>
        rw [hnext] at hrest
        exact ih hrest

/-! ## What is pending -/

/-- The loop may wait for more: nothing is pending, or parentheses are open. -/
def Awaits (pending : String) : Prop :=
  pending = "" ∨ ∃ count, missing pending = some (count + 1)

/-- After an input the loop may wait for more, if it did before. -/
theorem Reading.awaits_next {r : Reading} {next : String} (h : Awaits r.pending)
    (hnext : r.reaction.next r.pending = some next) : Awaits next := by
  have hgets := r.gets_reaction
  generalize r.reaction = reaction at hgets hnext
  cases hgets with
  | skip | help | environment =>
    cases hnext
    exact h
  | quit => cases hnext
  | wait kept unfinished =>
    cases hnext
    exact .inr ⟨_, unfinished⟩
  | close | submit | discard =>
    cases hnext
    exact .inl rfl

/-- At every prompt the loop may wait for more. -/
theorem Awaits.readings {pending : String} (h : Awaits pending) (inputs : List Input) :
    (∀ r ∈ readings pending inputs, Awaits r.pending) ∧
      ∀ rest ∈ remainder pending inputs, Awaits rest := by
  induction inputs generalizing pending with
  | nil =>
    refine ⟨nofun, fun rest hrest => ?_⟩
    cases hrest
    exact h
  | cons input inputs ih =>
    rw [ReadLoop.readings, remainder]
    cases hnext : (react pending input).next pending with
    | none => exact ⟨List.forall_mem_cons.mpr ⟨h, nofun⟩, nofun⟩
    | some next =>
      let r : Reading := ⟨pending, input⟩
      obtain ⟨hreadings, hremainder⟩ := ih (r.awaits_next h hnext)
      exact ⟨List.forall_mem_cons.mpr ⟨h, hreadings⟩, hremainder⟩

/-! ## What is submitted or discarded -/

/-- A submitted text without the parentheses behind its last line. -/
def unclosed (source : String) : String :=
  String.ofList (source.toList.rdropWhile (· == ')'))

/-- The text that is not pending any more after a reaction: it is submitted, here without the
parentheses behind its last line, or discarded. -/
def Reaction.released? (pending : String) : Reaction → Option String
  | submit source => some (unclosed source)
  | discard => some pending
  | _ => none

/-- Taking off the parentheses behind a line gives the text that ends with it. -/
theorem unclosed_append_closing (text : String) (count : Nat) :
    unclosed (text ++ "\n" ++ closing count) = text ++ "\n" := by
  have hlist : ∀ cs : List Char, (cs ++ ['\n'] ++ List.replicate count ')').rdropWhile (· == ')') =
      cs ++ ['\n'] := by
    intro cs
    induction count with
    | zero =>
      rw [List.replicate_zero, List.append_nil]
      exact List.rdropWhile_concat_neg _ _ _ (by decide)
    | succ count ih =>
      rw [List.replicate_succ', ← List.append_assoc, List.rdropWhile_concat_pos _ _ _ (by decide), ih]
  have hline : "\n".toList = ['\n'] := rfl
  rw [← String.toList_inj, unclosed, closing]
  simpa only [String.toList_append, String.toList_ofList, hline] using hlist text.toList

namespace Reading

/-- The parentheses that the loop adds can be told from the text in front of them. -/
theorem unclosed_text_append (r : Reading) (count : Nat) :
    unclosed (r.text ++ closing count) = r.text :=
  unclosed_append_closing (r.pending ++ r.line) count

/-- A text to which nothing was added. -/
theorem unclosed_text (r : Reading) : unclosed r.text = r.text := by
  have h := r.unclosed_text_append 0
  rwa [closing, List.replicate_zero, String.ofList_nil, String.append_empty] at h

/-- What is submitted is all the text there is. Parentheses are added if some are open, and then the
line is a blank one behind others. -/
theorem submit_cases {r : Reading} {source : String} (h : r.reaction = .submit source) :
    unclosed source = r.text ∧
      ((∃ count, missing r.text = some (count + 1) ∧ source = r.text ++ closing (count + 1) ∧
          r.pending ≠ "" ∧ r.input = .line r.line ∧ isBlankLine r.line = true) ∨
        (∀ count, missing r.text ≠ some (count + 1)) ∧ source = r.text) := by
  have hgets := r.gets_reaction
  rw [h] at hgets
  cases hgets with
  | close kept unfinished behind blank =>
    exact ⟨r.unclosed_text_append _,
      .inl ⟨_, unfinished, rfl, behind, input_eq_line kept, blank⟩⟩
  | submit kept finished => exact ⟨r.unclosed_text, .inr ⟨finished, rfl⟩⟩

/-- What a line adds to the text there is, if it is part of one. -/
def share (r : Reading) : String :=
  if r.IsAside then "" else r.line ++ "\n"

/-- A line that is part of a text stands behind what is pending. -/
theorem pending_append_share {r : Reading} (hkept : ¬r.IsAside) : r.pending ++ r.share = r.text := by
  rw [share, if_neg hkept, text, String.append_assoc]

/-- What was pending and the line are submitted, discarded or pending then. -/
theorem released_append_next (r : Reading) :
    (r.reaction.released? r.pending).getD "" ++ (r.reaction.next r.pending).getD "" =
      r.pending ++ r.share := by
  have hgets := r.gets_reaction
  generalize r.reaction = reaction at hgets
  cases hgets with
  | discard interrupted =>
    have haside : r.IsAside := .inl interrupted
    simp [share, haside, Reaction.released?, Reaction.next]
  | skip alone blank =>
    have haside : r.IsAside := .inr ⟨alone, .inl (bare_eq_empty_iff.mp blank)⟩
    simp [share, haside, Reaction.released?, Reaction.next]
  | help alone command =>
    have haside : r.IsAside := .inr ⟨alone, .inr (by simp [command])⟩
    simp [share, haside, Reaction.released?, Reaction.next]
  | environment alone command =>
    have haside : r.IsAside := .inr ⟨alone, .inr (by simp [command])⟩
    simp [share, haside, Reaction.released?, Reaction.next]
  | quit alone command =>
    have hlast : r.IsLast := ⟨alone, by simpa using command⟩
    simp [share, hlast.isAside, alone, Reaction.released?, Reaction.next]
  | wait kept => simp [pending_append_share kept, Reaction.released?, Reaction.next]
  | close kept =>
    simp [pending_append_share kept, unclosed_text_append, Reaction.released?, Reaction.next]
  | submit kept => simp [pending_append_share kept, unclosed_text, Reaction.released?, Reaction.next]

/-- Without an interrupt nothing leaves the loop but what is submitted. -/
theorem released?_eq_of_line {r : Reading} (h : r.input ≠ .interrupt) :
    r.reaction.released? r.pending = r.reaction.source?.map unclosed := by
  have hgets := r.gets_reaction
  generalize r.reaction = reaction at hgets
  cases hgets with
  | discard interrupted => exact absurd interrupted h
  | _ => rfl

end Reading

/-- The texts that are submitted, in order. -/
def sources (rs : List Reading) : List String :=
  rs.filterMap fun r => r.reaction.source?

/-- The texts that are submitted or discarded, in order, without the parentheses behind their last
lines. -/
def released (rs : List Reading) : List String :=
  rs.filterMap fun r => r.reaction.released? r.pending

/-- The texts that are submitted or discarded, from the first input on. -/
theorem join_released_cons (r : Reading) (rs : List Reading) :
    String.join (released (r :: rs)) =
      (r.reaction.released? r.pending).getD "" ++ String.join (released rs) := by
  rw [released, List.filterMap_cons]
  cases r.reaction.released? r.pending with
  | none => simp [released]
  | some text => simp [released]

/-- Without interrupts nothing leaves the loop but what is submitted. -/
theorem released_eq_map_sources {pending : String} {inputs : List Input}
    (h : .interrupt ∉ inputs) :
    released (readings pending inputs) = (sources (readings pending inputs)).map unclosed := by
  have hlines : ∀ r ∈ readings pending inputs, r.input ≠ .interrupt := by
    intro r hr heq
    have hmem := (map_input_readings pending inputs).1.subset (List.mem_map_of_mem hr)
    exact h (heq ▸ hmem)
  rw [released, sources, List.map_filterMap]
  exact List.filterMap_congr fun r hr => Reading.released?_eq_of_line (hlines r hr)

/-- The texts of the lines that are part of one, from the first line on. -/
theorem join_kept_cons (r : Reading) (rs : List Reading) :
    String.join (((r :: rs).filter fun r => ¬r.IsAside).map fun r => r.line ++ "\n") =
      r.share ++ String.join ((rs.filter fun r => ¬r.IsAside).map fun r => r.line ++ "\n") := by
  by_cases haside : r.IsAside <;> simp [Reading.share, haside]

/-- What is pending at first and the lines that are part of a text are submitted or discarded in order,
and the rest is pending in the end. -/
theorem join_released_append_remainder (pending : String) (inputs : List Input) :
    String.join (released (readings pending inputs)) ++ (remainder pending inputs).getD "" =
      pending ++ String.join
        (((readings pending inputs).filter fun r => ¬r.IsAside).map fun r => r.line ++ "\n") := by
  induction inputs generalizing pending with
  | nil => simp [readings, remainder, released]
  | cons input inputs ih =>
    have hstep : ((react pending input).released? pending).getD "" ++
        ((react pending input).next pending).getD "" = pending ++ Reading.share ⟨pending, input⟩ :=
      Reading.released_append_next ⟨pending, input⟩
    rw [readings, remainder, join_released_cons, join_kept_cons, Reading.reaction,
      ← String.append_assoc, ← hstep, String.append_assoc, String.append_assoc]
    cases (react pending input).next pending with
    | none => simp [released]
    | some next => rw [ih next, Option.getD_some]

-- An interrupt takes the pending text out of the conversation.
example :
    released (readings "" [.line "(+ 1", .interrupt, .line "2"]) = ["(+ 1\n", "2\n"] ∧
      sources (readings "" [.line "(+ 1", .interrupt, .line "2"]) = ["2\n"] := by
  decide +kernel

/-- A submitted text is evaluated as it stands. Its value is shown unless it is empty, and bound to `_`;
a failure is reported. -/
theorem submit_eq (root : ScopeId) (source : String) (w : World E) :
    (∀ v u, interpret root source w = (.ok v, u) →
      submit root source w = (.ok (), ({ u with
        printed := u.printed ++ if v.kind = .empty then "" else v.render ++ "\n" } : World E).bind
          root "_" v)) ∧
    ∀ e u, interpret root source w = (.error e, u) →
      submit root source w = (.ok (), { u with printed := u.printed ++ errorLine e }) := by
  have hattempt : ∀ result u, interpret root source w = (result, u) →
      attempt (interpret root source) w = (.ok result, u) := by
    intro result u h
    rw [attempt, h]
  constructor
  · intro v u h
    rw [submit, Correspondence.run_bind_ok _ (hattempt _ _ h)]
    dsimp only
    by_cases hempty : v.kind = .empty
    · rw [if_pos hempty, String.append_empty, if_neg (by simp [hempty])]
      rfl
    · rw [if_neg hempty, if_pos (by simp [hempty])]
      rfl
  · intro e u h
    rw [submit, Correspondence.run_bind_ok _ (hattempt _ _ h)]
    rfl

/-- The course of a conversation with the read loop. The loop prompts for each input that it reads and
reacts to it. It reads lines and interrupts in order, up to a line that ends it. At every prompt nothing
is pending, or parentheses are open. The texts that it submits, without the parentheses that it adds,
those that it discards at an interrupt, and what is pending in the end are the lines that it has read,
but for those that were blank or a command while nothing was pending; without interrupts nothing is
discarded. It adds parentheses to a text exactly if some are open, as many as that, and submits such a
text only for a blank line behind others. A text that it submits is evaluated as it stands, and its
value or failure is shown. -/
theorem conversation_keeps_lines (root : ScopeId) (inputs : List Input) :
    ((run root "" inputs : EvalM E Unit) =
      replay root (readings "" inputs) >>= fun _ => conclude (remainder "" inputs)) ∧
    ((readings "" inputs).map Reading.input <+: inputs ∧
      ((remainder "" inputs).isSome = true → (readings "" inputs).map Reading.input = inputs) ∧
      ∀ before r after, readings "" inputs = before ++ r :: after → r.IsLast →
        after = [] ∧ remainder "" inputs = none) ∧
    ((∀ r ∈ readings "" inputs, Awaits r.pending) ∧ ∀ rest ∈ remainder "" inputs, Awaits rest) ∧
    (String.join (released (readings "" inputs)) ++ (remainder "" inputs).getD "" =
        String.join
          (((readings "" inputs).filter fun r => ¬r.IsAside).map fun r => r.line ++ "\n") ∧
      (.interrupt ∉ inputs →
        released (readings "" inputs) = (sources (readings "" inputs)).map unclosed)) ∧
    (∀ r ∈ readings "" inputs, ∀ source, r.reaction = .submit source →
      (∀ count, missing (unclosed source) = some (count + 1) →
        source = unclosed source ++ closing (count + 1) ∧ r.pending ≠ "" ∧
          r.input = .line r.line ∧ isBlankLine r.line = true) ∧
      ((∀ count, missing (unclosed source) ≠ some (count + 1)) → source = unclosed source)) ∧
    ∀ source (w : World E),
      (∀ v u, interpret root source w = (.ok v, u) →
        submit root source w = (.ok (), ({ u with
          printed := u.printed ++ if v.kind = .empty then "" else v.render ++ "\n" } : World E).bind
            root "_" v)) ∧
      ∀ e u, interpret root source w = (.error e, u) →
        submit root source w = (.ok (), { u with printed := u.printed ++ errorLine e }) := by
  have hawaits : Awaits "" := .inl rfl
  obtain ⟨horder, hall⟩ := map_input_readings "" inputs
  refine ⟨run_eq_replay root "" inputs, ⟨horder, hall, fun _ _ _ => readings_isLast⟩,
    hawaits.readings inputs, ⟨?_, released_eq_map_sources⟩, fun r _ source hsubmit => ?_,
    submit_eq root⟩
  · rw [join_released_append_remainder, String.empty_append]
  · obtain ⟨htext, hcases⟩ := Reading.submit_cases hsubmit
    rw [htext]
    rcases hcases with ⟨count, hcount, hsource, hbehind, hblank⟩ | ⟨hfinished, hsource⟩
    · refine ⟨fun n hn => ?_, fun hfinished => absurd hcount (hfinished count)⟩
      rw [hcount] at hn
      cases hn
      exact ⟨hsource, hbehind, hblank⟩
    · exact ⟨fun n hn => absurd hn (hfinished n), fun _ => hsource⟩

end FlatLisp.ReadLoop
