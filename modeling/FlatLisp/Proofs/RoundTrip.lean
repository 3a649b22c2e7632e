import FlatLisp.Proofs.Comments

/-!
# Text and tokens

The canonical text of a program leaves out the space after `(` and before `)`. Reading finds the
tokens again all the same, because a parenthesis ends a word as well as a blank does. What is read
from any text consists of tokens that can be found again, so reading, writing and reading once more
gives what the first reading gave.
-/

namespace FlatLisp

open Lexer Text

namespace Lexer

/-- A character that goes on with a word. -/
def IsLetter (comments : Bool) (c : Char) : Prop :=
  isBlank c = false ∧ c ≠ '(' ∧ c ≠ ')' ∧ (comments = true → c ≠ ';')

instance (comments : Bool) (c : Char) : Decidable (IsLetter comments c) :=
  inferInstanceAs (Decidable (_ ∧ _ ∧ _ ∧ (_ → _)))

/-- Whether a word ends in front of a text, with a blank, a parenthesis or the end of the text. -/
def EndsWord (cs : List Char) : Prop :=
  ∀ c ∈ cs.head?, isBlank c = true ∨ c = '(' ∨ c = ')'

end Lexer

/-- A token that can be read from a text: a parenthesis, or a word of one letter or more. -/
def Token.IsLexeme (comments : Bool) : Token → Prop
  | .word text => text ≠ "" ∧ ∀ c ∈ text.toList, IsLetter comments c
  | _ => True

instance (comments : Bool) : (t : Token) → Decidable (t.IsLexeme comments)
  | .left => .isTrue trivial
  | .right => .isTrue trivial
  | .word text =>
    @instDecidableAnd (text ≠ "") (∀ c ∈ text.toList, IsLetter comments c) _ (List.decidableBAll _ _)

variable {comments : Bool}

/-! ## Reading what was written -/

/-- One more letter. -/
theorem scan_letter {c : Char} (hc : IsLetter comments c) (letters cs : List Char) :
    scan comments (.word letters) (c :: cs) = scan comments (.word (c :: letters)) cs := by
  obtain ⟨hblank, hopen, hclose, hcomment⟩ := hc
  cases comments with
  | false => simp [scan, hopen, hclose, hblank]
  | true => simp [scan, hopen, hclose, hblank, hcomment rfl]

/-- Letters belong to the word that they follow. -/
theorem scan_letters {word : List Char} (hword : ∀ c ∈ word, IsLetter comments c)
    (letters cs : List Char) :
    scan comments (.word letters) (word ++ cs) =
      scan comments (.word (word.reverse ++ letters)) cs := by
  induction word generalizing letters with
  | nil => rfl
  | cons c word ih =>
    rw [List.cons_append, scan_letter (hword c List.mem_cons_self),
      ih fun d hd => hword d (List.mem_cons_of_mem c hd)]
    simp

/-- A blank ends a word. -/
theorem scan_blank {c : Char} (hc : isBlank c = true) (letters cs : List Char) :
    scan comments (.word letters) (c :: cs) = finish letters (scan comments (.word []) cs) := by
  have hopen : c ≠ '(' := by
    rintro rfl
    exact absurd hc (by decide)
  have hclose : c ≠ ')' := by
    rintro rfl
    exact absurd hc (by decide)
  simp [scan, hopen, hclose, hc]

/-- A word that ends is followed by the tokens of the rest. -/
theorem scan_of_endsWord {cs : List Char} (h : EndsWord cs) (letters : List Char) :
    scan comments (.word letters) cs = finish letters (scan comments (.word []) cs) := by
  cases cs with
  | nil => rfl
  | cons c cs =>
    rcases h c rfl with hblank | rfl | rfl
    · rw [scan_blank hblank, scan_blank hblank, finish]
    · simp [scan, finish]
    · simp [scan, finish]

/-- A word ends where the next token is written. -/
theorem endsWord_renderAfter (text : String) (ts : List Token) :
    EndsWord (Program.renderAfter (.word text) ts).toList := by
  cases ts with
  | nil => simp [EndsWord, Program.renderAfter]
  | cons t ts =>
    cases t <;> simp [EndsWord, Program.renderAfter, Program.spaced, Token.text, isBlank]

/-- A token that is written in front of others is read in front of them. -/
theorem scan_text {t : Token} (ht : t.IsLexeme comments) {ts : List Token}
    (hts : scan comments (.word []) (Program.renderAfter t ts).toList = ts) :
    scan comments (.word []) (t.text ++ Program.renderAfter t ts).toList = t :: ts := by
  rw [String.toList_append]
  cases t with
  | left => simp [Token.text, scan, finish, hts]
  | right => simp [Token.text, scan, finish, hts]
  | word text =>
    rw [Token.text, scan_letters ht.2, scan_of_endsWord (endsWord_renderAfter text ts), hts]
    have hletters : text.toList.reverse ++ [] ≠ [] := by simpa using ht.1
    rw [finish, List.append_nil, List.reverse_reverse, String.ofList_toList]
    exact hletters

/-- What is written after a token is read. -/
theorem scan_renderAfter (t : Token) {ts : List Token} (hts : ∀ u ∈ ts, u.IsLexeme comments) :
    scan comments (.word []) (Program.renderAfter t ts).toList = ts := by
  induction ts generalizing t with
  | nil => rfl
  | cons u ts ih =>
    have hrest := ih u fun v hv => hts v (List.mem_cons_of_mem u hv)
    have htext := scan_text (hts u List.mem_cons_self) hrest
    rw [Program.renderAfter, String.append_assoc]
    cases Program.spaced t u with
    | false => simpa using htext
    | true =>
      have hspace : isBlank ' ' = true := by decide
      simpa [scan_blank hspace, finish] using htext

/-- The tokens of a program are read from its text. -/
theorem tokenize_render {p : Program} (hp : ∀ t ∈ p, t.IsLexeme comments) :
    Program.tokenize comments p.render = p := by
  cases p with
  | nil => rfl
  | cons t ts =>
    have hrest := scan_renderAfter t fun u hu => hp u (List.mem_cons_of_mem t hu)
    exact scan_text (hp t List.mem_cons_self) hrest

/-! ## What is read can be written -/

/-- The token of a word that has ended, and those that follow it. -/
theorem isLexeme_of_mem_finish {letters : List Char} (hletters : ∀ c ∈ letters, IsLetter comments c)
    {ts : List Token} (hts : ∀ t ∈ ts, t.IsLexeme comments) :
    ∀ t ∈ finish letters ts, t.IsLexeme comments := by
  cases letters with
  | nil => exact hts
  | cons c letters =>
    intro t ht
    rcases List.mem_cons.mp ht with rfl | ht
    · refine ⟨by simp, fun d hd => hletters d ?_⟩
      simpa [or_comm] using hd
    · exact hts t ht

/-- Only parentheses and words of letters are read. -/
theorem isLexeme_of_mem_scan (pending : Pending) (cs : List Char)
    (hpending : ∀ c ∈ pending.letters, IsLetter comments c) :
    ∀ t ∈ scan comments pending cs, t.IsLexeme comments := by
  -- In a comment no letters are pending, so the invariant holds again when it ends.
  fun_induction scan comments pending cs with
  | case1 letters => exact isLexeme_of_mem_finish hpending (by simp)
  | case2 => simp
  | case3 letters cs ih =>
    have hrest := ih (by simp [Pending.letters])
    exact isLexeme_of_mem_finish hpending (List.forall_mem_cons.mpr ⟨trivial, hrest⟩)
  | case4 letters cs hopen ih =>
    have hrest := ih (by simp [Pending.letters])
    exact isLexeme_of_mem_finish hpending (List.forall_mem_cons.mpr ⟨trivial, hrest⟩)
  | case5 letters c cs hopen hclose hblank ih =>
    exact isLexeme_of_mem_finish hpending (ih (by simp [Pending.letters]))
  | case6 letters c cs hopen hclose hblank hcomment ih =>
    exact isLexeme_of_mem_finish hpending (ih (by simp [Pending.letters]))
  | case7 letters c cs hopen hclose hblank hcomment ih =>
    have hletter : IsLetter comments c :=
      ⟨Bool.eq_false_iff.mpr hblank, hopen, hclose, fun hmode => by simpa [hmode] using hcomment⟩
    exact ih (List.forall_mem_cons.mpr ⟨hletter, hpending⟩)
  | case8 cs ih => exact ih hpending
  | case9 cs ih => exact ih hpending
  | case10 tail htail => simp
  | case11 head cs hline hpair hreturn ih => exact ih hpending

/-- What is read from a text consists of tokens that can be read. -/
theorem isLexeme_of_mem_tokenize (text : String) :
    ∀ t ∈ Program.tokenize comments text, t.IsLexeme comments :=
  isLexeme_of_mem_scan (.word []) text.toList (by simp [Pending.letters])

/-- Reading and writing are inverse, with comments or without. Any tokens that can be read are read
from the text that is written for them, whether or not their parentheses match. All that is read
consists of such tokens, so writing it and reading it again changes nothing. -/
theorem tokenize_render_inverse (comments : Bool) :
    (∀ p : Program, (∀ t ∈ p, t.IsLexeme comments) → Program.tokenize comments p.render = p) ∧
    (∀ text, ∀ t ∈ Program.tokenize comments text, t.IsLexeme comments) ∧
    ∀ text, Program.tokenize comments (Program.tokenize comments text).render =
      Program.tokenize comments text :=
  ⟨fun _ hp => tokenize_render hp, isLexeme_of_mem_tokenize,
    fun text => tokenize_render (isLexeme_of_mem_tokenize text)⟩

/-- Without comments a `;` is a letter like any other, and parentheses need not match. -/
theorem tokenize_render_inverse_unmatched :
    let p : Program := [.right, .left, .left, .word "é;", .right, .word "x", .left, .right]
    (∀ t ∈ p, t.IsLexeme false) ∧ p.render = ") ((é;) x ()" ∧
      Program.tokenize false p.render = p := by
  intro p
  have hp : ∀ t ∈ p, t.IsLexeme false := by decide
  exact ⟨hp, by decide, (tokenize_render_inverse false).1 p hp⟩

end FlatLisp
