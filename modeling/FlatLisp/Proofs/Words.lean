import FlatLisp.Proofs.RoundTrip

/-!
# Words

Without comments, the tokens of a text are what is left between blanks once every parenthesis has a
space on both sides. The reader takes the text character by character and keeps the word that it is
in the middle of; what it has still to give is found by putting that word in front of the padded rest.
-/

namespace FlatLisp

open Lexer Text

namespace Text

/-- Text with a space on both sides of every parenthesis. -/
def pad (cs : List Char) : List Char :=
  cs.flatMap fun c => if c = '(' ∨ c = ')' then [' ', c, ' '] else [c]

/-- The words of a text: what stands between its blanks, if anything does. -/
def words (cs : List Char) : List (List Char) :=
  (cs.splitOnP isBlank).filter fun word => !word.isEmpty

/-- A parenthesis is padded. -/
theorem pad_parenthesis {c : Char} (hc : c = '(' ∨ c = ')') (cs : List Char) :
    pad (c :: cs) = ' ' :: c :: ' ' :: pad cs := by
  simp [pad, hc]

/-- Any other character stays as it is. -/
theorem pad_cons {c : Char} (hopen : c ≠ '(') (hclose : c ≠ ')') (cs : List Char) :
    pad (c :: cs) = c :: pad cs := by
  simp [pad, hopen, hclose]

/-- A blank ends a word, and a new one may begin behind it. -/
theorem words_append_blank {word : List Char} (hword : ∀ c ∈ word, isBlank c = false) {c : Char}
    (hc : isBlank c = true) (cs : List Char) :
    words (word ++ c :: cs) = [word].filter (fun word => !word.isEmpty) ++ words cs := by
  rw [words, List.splitOnP_append_cons_of_forall_mem hword c hc, ← List.singleton_append,
    List.filter_append, words]

/-- A text without blanks is a word, unless it is empty. -/
theorem words_of_not_blank {word : List Char} (hword : ∀ c ∈ word, isBlank c = false) :
    words word = [word].filter fun word => !word.isEmpty := by
  rw [words, List.splitOnP_eq_singleton hword]

/-- A padded parenthesis is a word of its own. -/
theorem words_parenthesis {word : List Char} (hword : ∀ c ∈ word, isBlank c = false) {c : Char}
    (hc : c = '(' ∨ c = ')') (cs : List Char) :
    words (word ++ pad (c :: cs)) =
      [word].filter (fun word => !word.isEmpty) ++ [c] :: words (pad cs) := by
  have hspace : isBlank ' ' = true := by decide
  have hsolid : ∀ d ∈ [c], isBlank d = false := by
    intro d hd
    rw [List.mem_singleton.mp hd]
    rcases hc with rfl | rfl <;> decide
  rw [pad_parenthesis hc, words_append_blank hword hspace]
  exact congrArg _ (words_append_blank hsolid hspace (pad cs))

/-- Words hold all that is not blank, in order. -/
theorem flatten_words (cs : List Char) : (words cs).flatten = cs.filter fun c => !isBlank c := by
  rw [words, List.flatten_filter_not_isEmpty]
  induction cs with
  | nil => rfl
  | cons c cs ih =>
    rw [List.splitOnP_cons_eq_if_modifyHead, List.filter_cons]
    cases hblank : isBlank c with
    | true => simpa using ih
    | false =>
      obtain ⟨first, rest, hsplit⟩ := List.exists_cons_of_ne_nil (List.splitOnP_ne_nil isBlank cs)
      simpa [hsplit] using ih

/-- Padding adds nothing but blanks. -/
theorem filter_pad (cs : List Char) :
    (pad cs).filter (fun c => !isBlank c) = cs.filter fun c => !isBlank c := by
  have hspace : isBlank ' ' = true := by decide
  induction cs with
  | nil => rfl
  | cons c cs ih =>
    by_cases hc : c = '(' ∨ c = ')'
    · simp [pad_parenthesis hc, List.filter_cons, hspace, ih]
    · obtain ⟨hopen, hclose⟩ := not_or.mp hc
      simp [pad_cons hopen hclose, List.filter_cons, ih]

end Text

/-- The token that a word spells. -/
def wordToken (word : List Char) : Token :=
  Token.ofText (String.ofList word)

/-- Letters spell a word, not a parenthesis. -/
theorem wordToken_letters {word : List Char} (hword : ∀ c ∈ word, IsLetter false c) :
    wordToken word = .word (String.ofList word) := by
  have hne : ∀ c, ¬IsLetter false c → word ≠ [c] := by
    intro c hc heq
    subst heq
    exact hc (hword c List.mem_cons_self)
  have hopen : String.ofList word ≠ "(" := by
    intro heq
    exact hne '(' (by decide) (String.ofList_injective heq)
  have hclose : String.ofList word ≠ ")" := by
    intro heq
    exact hne ')' (by decide) (String.ofList_injective heq)
  rw [wordToken, Token.ofText, if_neg hopen, if_neg hclose]

/-- The token of a word that has ended is the token that its letters spell. -/
theorem finish_eq_map {letters : List Char} (hletters : ∀ c ∈ letters, IsLetter false c)
    (ts : List Token) :
    finish letters ts =
      ([letters.reverse].filter fun word => !word.isEmpty).map wordToken ++ ts := by
  cases letters with
  | nil => rfl
  | cons c letters =>
    have hword : ∀ d ∈ (c :: letters).reverse, IsLetter false d :=
      fun d hd => hletters d (List.mem_reverse.mp hd)
    rw [finish, ← wordToken_letters hword]
    · simp
    · exact List.cons_ne_nil c letters

/-- What is read from a text behind the letters of a word are the words of the padded text behind
those letters. -/
theorem scan_eq_words {letters : List Char} (hletters : ∀ c ∈ letters, IsLetter false c)
    (cs : List Char) :
    scan false (.word letters) cs = (words (letters.reverse ++ pad cs)).map wordToken := by
  have hsolid : ∀ {letters : List Char}, (∀ c ∈ letters, IsLetter false c) →
      ∀ c ∈ letters.reverse, isBlank c = false :=
    fun h c hc => (h c (List.mem_reverse.mp hc)).1
  -- The induction is on the text. The letters so far grow with it, and are letters all the while.
  induction cs generalizing letters with
  | nil =>
    rw [scan, finish_eq_map hletters, pad, List.flatMap_nil, List.append_nil, List.append_nil,
      words_of_not_blank (hsolid hletters)]
  | cons c cs ih =>
    have hnone : scan false (.word []) cs = (words (pad cs)).map wordToken :=
      ih (List.forall_mem_nil _)
    by_cases hc : c = '(' ∨ c = ')'
    · rw [words_parenthesis (hsolid hletters) hc, List.map_append, List.map_cons, ← hnone,
        ← finish_eq_map hletters]
      rcases hc with rfl | rfl <;> simp [scan, wordToken, Token.ofText]
    · obtain ⟨hopen, hclose⟩ := not_or.mp hc
      rw [pad_cons hopen hclose]
      cases hblank : isBlank c with
      | true =>
        rw [scan_blank hblank, finish_eq_map hletters, hnone,
          words_append_blank (hsolid hletters) hblank, List.map_append]
      | false =>
        have hletter : IsLetter false c := ⟨hblank, hopen, hclose, fun h => absurd h Bool.false_ne_true⟩
        rw [scan_letter hletter, ih (List.forall_mem_cons.mpr ⟨hletter, hletters⟩),
          List.reverse_cons, List.append_assoc, List.singleton_append]

/-- Read without comments, a text gives the words of the padded text, each as the token that it
spells. So the tokens spell all of the text but its blanks, in order, and none of them is empty. -/
theorem tokenize_padded (text : String) :
    Program.tokenize false text = (words (pad text.toList)).map wordToken ∧
      (Program.tokenize false text).flatMap (fun t => t.text.toList) =
        text.toList.filter (fun c => !isBlank c) ∧
      ∀ t ∈ Program.tokenize false text, t.text ≠ "" := by
  have hwords : Program.tokenize false text = (words (pad text.toList)).map wordToken :=
    scan_eq_words (List.forall_mem_nil _) text.toList
  have hspelled : ∀ word, (wordToken word).text.toList = word := by
    intro word
    rw [wordToken, Token.text_ofText, String.toList_ofList]
  refine ⟨hwords, ?_, fun t ht => ?_⟩
  · rw [hwords, List.flatMap_map]
    simp only [hspelled]
    rw [List.flatMap_id', flatten_words, filter_pad]
  · rw [hwords] at ht
    obtain ⟨word, hword, rfl⟩ := List.mem_map.mp ht
    have hfull := (List.mem_filter.mp hword).2
    intro hempty
    rw [← hspelled word, hempty] at hfull
    exact absurd hfull (by decide)

end FlatLisp
