import FlatLisp.Program.Lexer

/-!
# Comments

Reading a text with comments should give the tokens of the text that is left when comments are taken
out, each up to the end of its line. It does so up to the first comment that meets a carriage return
on its own: nothing behind that line is read. `tokenize_comments` says exactly which tokens are
missing, and so when none is.
-/

namespace FlatLisp

open Lexer

namespace Text

/-- Text without its comments, from inside or outside of a comment on. A comment is taken out up to
the end of its line. -/
def dropComments : (inside : Bool) → List Char → List Char
  | _, [] => []
  | false, c :: cs => if c = ';' then dropComments true cs else c :: dropComments false cs
  | true, c :: cs => if c = '\n' then c :: dropComments false cs else dropComments true cs

/-- Text without its comments. -/
def withoutComments (text : String) : String :=
  String.ofList (dropComments false text.toList)

/-- What follows the line of the first comment that meets a carriage return on its own, from inside
or outside of a comment on. -/
def behindBroken : (inside : Bool) → List Char → List Char
  | _, [] => []
  | false, c :: cs => if c = ';' then behindBroken true cs else behindBroken false cs
  | true, '\n' :: cs => behindBroken false cs
  | true, '\r' :: '\n' :: cs => behindBroken false cs
  | true, '\r' :: cs => cs.dropWhile (· != '\n')
  | true, _ :: cs => behindBroken true cs

/-- The part of a text that is never read: what follows the line of the first comment that meets a
carriage return on its own. -/
def unread (text : String) : String :=
  String.ofList (behindBroken false text.toList)

/-- Outside of a comment, text stays as it is. -/
theorem dropComments_false_cons {c : Char} (h : c ≠ ';') (cs : List Char) :
    dropComments false (c :: cs) = c :: dropComments false cs := by
  simp only [dropComments, h, ↓reduceIte]

/-- Outside of a comment, nothing is broken off. -/
theorem behindBroken_false_cons {c : Char} (h : c ≠ ';') (cs : List Char) :
    behindBroken false (c :: cs) = behindBroken false cs := by
  simp only [behindBroken, h, ↓reduceIte]

/-- Inside of a comment, nothing up to the end of the line matters. -/
theorem dropComments_true (cs : List Char) :
    dropComments true cs = dropComments false (cs.dropWhile (· != '\n')) := by
  induction cs with
  | nil => rfl
  | cons c cs ih =>
    by_cases hc : c = '\n'
    · subst hc
      rfl
    · simp only [dropComments, hc, ↓reduceIte, List.dropWhile_cons, bne_iff_ne, ne_eq,
        not_false_eq_true, ih]

end Text

open Text

/-- The token of a word goes in front of all that follows. -/
theorem finish_append (letters : List Char) (ts us : List Token) :
    finish letters (ts ++ us) = finish letters ts ++ us := by
  cases letters <;> rfl

/-- A word ends where a comment was taken out. -/
theorem scan_dropComments_true (letters : List Char) (cs : List Char) :
    scan false (.word letters) (dropComments true cs) =
      finish letters (scan false (.word []) (dropComments true cs)) := by
  induction cs with
  | nil => cases letters <;> rfl
  | cons c cs ih =>
    by_cases hc : c = '\n'
    · subst hc
      rfl
    · simp only [dropComments, hc, ↓reduceIte]
      exact ih

/-- Whether the reader is inside of a comment. -/
def Lexer.Pending.isComment : Pending → Bool
  | .word _ => false
  | .comment => true

/-- The letters of the word that the reader is in the middle of. -/
def Lexer.Pending.letters : Pending → List Char
  | .word letters => letters
  | .comment => []

/-- The tokens of a text without its comments are those that are read from the text with its comments,
and then those that are not read. -/
theorem scan_dropComments (pending : Pending) (cs : List Char) :
    scan false (.word pending.letters) (dropComments pending.isComment cs) =
      scan true pending cs ++
        scan false (.word []) (dropComments false (behindBroken pending.isComment cs)) := by
  fun_induction scan true pending cs with
  | case1 letters =>
    simp only [dropComments, behindBroken, Pending.letters, scan, finish, List.append_nil]
  | case2 => rfl
  | case3 letters cs ih =>
    have hopen : '(' ≠ ';' := by decide
    simp only [Pending.letters, Pending.isComment] at ih ⊢
    rw [dropComments_false_cons hopen, behindBroken_false_cons hopen]
    simp only [scan, ↓reduceIte, ih]
    exact finish_append letters (.left :: scan true (.word []) cs) _
  | case4 letters cs hopen ih =>
    have hclose : ')' ≠ ';' := by decide
    simp only [Pending.letters, Pending.isComment] at ih ⊢
    rw [dropComments_false_cons hclose, behindBroken_false_cons hclose]
    simp only [scan, hopen, ↓reduceIte, ih]
    exact finish_append letters (.right :: scan true (.word []) cs) _
  | case5 letters c cs hopen hclose hblank ih =>
    have hc : c ≠ ';' := by
      intro heq
      subst heq
      exact absurd hblank (by decide)
    simp only [Pending.letters, Pending.isComment] at ih ⊢
    rw [dropComments_false_cons hc, behindBroken_false_cons hc]
    simp only [scan, hopen, hclose, hblank, ↓reduceIte, ih]
    exact finish_append letters (scan true (.word []) cs) _
  | case6 letters c cs hopen hclose hblank hcomment ih =>
    have hc : c = ';' := by simpa using hcomment
    subst hc
    simp only [Pending.letters, Pending.isComment] at ih ⊢
    simp only [dropComments, behindBroken, ↓reduceIte]
    rw [scan_dropComments_true, ih, finish_append]
  | case7 letters c cs hopen hclose hblank hcomment ih =>
    have hc : c ≠ ';' := by simpa using hcomment
    simp only [Pending.letters, Pending.isComment] at ih ⊢
    rw [dropComments_false_cons hc, behindBroken_false_cons hc]
    simp only [scan, hopen, hclose, hblank, ↓reduceIte, Bool.false_and, Bool.false_eq_true]
    exact ih
  | case8 cs ih => exact ih
  | case9 cs ih => exact ih
  | case10 tail htail =>
    -- Here the reader gives up: nothing of `tail` is read, although its next line is no comment.
    have hbroken : behindBroken true ('\r' :: tail) = tail.dropWhile (· != '\n') := by
      simp only [behindBroken]
    have hdropped : dropComments true ('\r' :: tail) = dropComments true tail := rfl
    simp only [Pending.letters, Pending.isComment, List.nil_append]
    rw [hbroken, hdropped, dropComments_true]
  | case11 head cs hline hpair hreturn ih =>
    have hbroken : behindBroken true (head :: cs) = behindBroken true cs := by
      simp only [behindBroken]
    have hdropped : dropComments true (head :: cs) = dropComments true cs := if_neg hline
    simp only [Pending.letters, Pending.isComment] at ih ⊢
    rw [hbroken, hdropped, ih]

/-- A text without carriage returns is read to its end. -/
theorem behindBroken_of_not_mem {cs : List Char} (h : '\r' ∉ cs) (inside : Bool) :
    behindBroken inside cs = [] := by
  fun_induction behindBroken inside cs with
  | case1 => rfl
  | case2 cs ih => exact ih (List.not_mem_of_not_mem_cons h)
  | case3 c cs _ ih => exact ih (List.not_mem_of_not_mem_cons h)
  | case4 cs ih => exact ih (List.not_mem_of_not_mem_cons h)
  | case5 cs => exact absurd List.mem_cons_self h
  | case6 cs => exact absurd List.mem_cons_self h
  | case7 c cs _ _ _ ih => exact ih (List.not_mem_of_not_mem_cons h)

/-- The tokens of a text without its comments are those of the text with comments and those of its
unread part, in this order. So comments are all that reading the text with comments leaves out if,
and only if, its unread part has no tokens outside of comments. In a text without carriage returns
that is always so. -/
theorem tokenize_comments (text : String) :
    Program.tokenize false (withoutComments text) =
        Program.tokenize true text ++ Program.tokenize false (withoutComments (unread text)) ∧
      (Program.tokenize true text = Program.tokenize false (withoutComments text) ↔
        Program.tokenize false (withoutComments (unread text)) = []) ∧
      ('\r' ∉ text.toList →
        Program.tokenize true text = Program.tokenize false (withoutComments text)) := by
  have h : Program.tokenize false (withoutComments text) =
      Program.tokenize true text ++ Program.tokenize false (withoutComments (unread text)) := by
    simp only [Program.tokenize, withoutComments, unread, String.toList_ofList]
    exact scan_dropComments (.word []) text.toList
  refine ⟨h, ?_, fun hreturn => ?_⟩
  · rw [h, List.self_eq_append_right]
  · rw [h, unread, behindBroken_of_not_mem hreturn]
    exact (List.append_nil _).symm

/-- A comment that meets a carriage return on its own takes the next line with it. -/
theorem tokenize_comments_loneReturn :
    Program.tokenize true ";a\rb\nx" = [] ∧
      Program.tokenize false (withoutComments ";a\rb\nx") = [.word "x"] := by
  decide

end FlatLisp
