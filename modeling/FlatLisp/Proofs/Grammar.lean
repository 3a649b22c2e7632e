import FlatLisp.Proofs.Forest

/-!
# The grammar of programs

Programs are derived from `F ::= empty | word F | ( F ) F`. Counting parentheses decides the grammar,
and the count says more: how many `)` a program lacks, or that no continuation helps because some `)`
closes nothing. The check of a program counts on its own, and its reports name what the count finds:
the first `)` that closes nothing, or how many are missing.
-/

namespace FlatLisp

namespace Program

/-- The programs that the grammar derives. -/
inductive Derivable : List Token → Prop
  | empty : Derivable []
  | atom (word : String) {rest : List Token} (hrest : Derivable rest) :
      Derivable (.word word :: rest)
  | group {inner rest : List Token} (hinner : Derivable inner) (hrest : Derivable rest) :
      Derivable (.left :: (inner ++ .right :: rest))

/-- The tokens of a forest are derived tree by tree. -/
theorem derivable_tokens (f : Forest) : Derivable (Forest.tokens f) := by
  induction f using Forest.induction with
  | nil => exact .empty
  | leaf word f ih => exact .atom word ih
  | list children f ihChildren ih =>
    rw [Forest.tokens_list_cons]
    exact .group ihChildren ih

/-- The grammar derives the programs whose parentheses match. -/
theorem derivable_iff_isValid {p : Program} : Derivable p ↔ p.isValid = true := by
  constructor
  · intro h
    induction h with
    | empty => rfl
    | atom word _ ih => exact ih
    | group _ _ ihInner ihRest =>
      rw [isValid_iff, openAfter, openAfter_append, openAfter_of_isValid ihInner]
      exact isValid_iff.mp ihRest
  · intro hp
    rw [← tokens_forest hp]
    exact derivable_tokens p.forest

/-! ## Continuations -/

/-- Closing parentheses close all that are open if they are as many. -/
theorem openAfter_replicate_eq_zero_iff {depth n : Nat} :
    openAfter depth (List.replicate n .right) = some 0 ↔ depth = n := by
  induction n generalizing depth with
  | zero => simp [openAfter]
  | succ n ih =>
    cases depth with
    | zero => simp [List.replicate_succ, openAfter]
    | succ depth => simp [List.replicate_succ, openAfter, ih]

/-- The number of parentheses that a program lacks is the number that completes it. -/
theorem missingRight_eq_some_iff {p : Program} {n : Nat} :
    p.missingRight = some n ↔ isValid (p ++ List.replicate n .right) = true := by
  rw [isValid_iff, openAfter_append, missingRight]
  cases openAfter 0 p with
  | none => simp
  | some depth => simp [openAfter_replicate_eq_zero_iff]

/-- A program lacks no number of parentheses if nothing completes it. -/
theorem missingRight_eq_none_iff {p : Program} :
    p.missingRight = none ↔ ∀ rest, isValid (p ++ rest) = false := by
  constructor
  · intro hnone rest
    rw [Bool.eq_false_iff, Ne, isValid_iff, openAfter_append, ← missingRight, hnone]
    simp
  · intro h
    cases hmissing : p.missingRight with
    | none => rfl
    | some n =>
      have hvalid := missingRight_eq_some_iff.mp hmissing
      simp [h] at hvalid

/-! ## Reports -/

/-- A `)` closes nothing if it follows tokens that close all they open. -/
theorem strayClose?_eq_some_iff {depth : Nat} {ts : List Token} {i : Nat} :
    strayClose? depth ts = some i ↔
      ts[i]? = some .right ∧ openAfter depth (ts.take i) = some 0 := by
  fun_induction strayClose? depth ts generalizing i with
  | case1 depth => simp
  | case2 depth ts ih => cases i <;> simp [openAfter, ih]
  | case3 ts => cases i <;> simp [openAfter]
  | case4 depth ts ih => cases i <;> simp [openAfter, ih]
  | case5 depth word ts ih => cases i <;> simp [openAfter, ih]

/-- The check finds nothing wrong, or a `)` that closes nothing, or else that some are missing. -/
theorem validate_cases (p : Program) :
    (p.missingRight = some 0 ∧ p.validate = .ok ()) ∨
      (∃ i, strayClose? 0 p = some i ∧ p.missingRight = none ∧
        p.validate = .error (.unexpectedClose p i)) ∨
      ∃ n, p.missingRight = some (n + 1) ∧ strayClose? 0 p = none ∧
        p.validate = .error (.incomplete p (n + 1)) := by
  have hnone : p.missingRight = none ↔ (strayClose? 0 p).isSome = true := openAfter_eq_none_iff
  unfold validate
  cases hstray : strayClose? 0 p with
  | some i =>
    rw [hstray] at hnone
    simp [hnone]
  | none =>
    rw [hstray] at hnone
    match hmissing : p.missingRight with
    | none => simp [hmissing] at hnone
    | some 0 => simp
    | some (n + 1) => simp

end Program

namespace ParseError

/-- The report is about a `)` that closes nothing and names its place, counted from one. -/
def ReportsClose (report : ParseError) (place : Nat) : Prop :=
  report.kind = .unexpectedClose ∧ report.message = s!"unexpected ')' at token {place}"

/-- The report is about missing parentheses and names their number. -/
def ReportsMissing (report : ParseError) (n : Nat) : Prop :=
  report.kind = .incomplete ∧ report.message =
    if n = 1 then "missing 1 closing parenthesis" else s!"missing {n} closing parentheses"

/-- A number in a text can be read back if no digit follows it. -/
theorem eq_of_repr_append {m n : Nat} {cs ds : List Char} (hcs : ∀ c ∈ cs.head?, c.isDigit = false)
    (hds : ∀ d ∈ ds.head?, d.isDigit = false)
    (h : m.repr.toList ++ cs = n.repr.toList ++ ds) : m = n := by
  have hread : ∀ (k : Nat) (rest : List Char), (∀ c ∈ rest.head?, c.isDigit = false) →
      Nat.ofDigitChars 10 ((k.repr.toList ++ rest).takeWhile Char.isDigit) 0 = k := by
    intro k rest hrest
    have hdigits : ∀ c ∈ Nat.toDigits 10 k, c.isDigit = true :=
      fun c hc => Nat.isDigit_of_mem_toDigits (by decide) (by decide) hc
    have hend : rest.takeWhile Char.isDigit = [] := by cases rest <;> simp_all
    rw [Nat.toList_repr, List.takeWhile_append_of_pos hdigits, hend, List.append_nil]
    exact Nat.ofDigitChars_toDigits (by decide) (by decide)
  rw [← hread m cs hcs, h, hread n ds hds]

/-- Different places make different reports. -/
theorem reportsClose_unexpectedClose_iff {p : Program} {i place : Nat} :
    (unexpectedClose p i).ReportsClose place ↔ i + 1 = place := by
  constructor
  · rintro ⟨-, htext⟩
    have hnumber : (i + 1).repr = place.repr := by simpa [unexpectedClose] using htext
    have hdigits : (i + 1).repr.toList ++ [] = place.repr.toList ++ [] := by rw [hnumber]
    exact eq_of_repr_append (by simp) (by simp) hdigits
  · rintro rfl
    exact ⟨rfl, rfl⟩

/-- The wording of a report on missing parentheses, whatever their number. -/
theorem incomplete_message (p : Program) (n : Nat) :
    (incomplete p n).message =
      if n = 1 then "missing 1 closing parenthesis" else s!"missing {n} closing parentheses" := by
  by_cases hone : n = 1
  · subst hone
    rfl
  · simp [incomplete, hone, String.append_assoc, toString]

/-- Different numbers make different reports. -/
theorem reportsMissing_incomplete_iff {p : Program} {m n : Nat} :
    (incomplete p m).ReportsMissing n ↔ m = n := by
  constructor
  · rintro ⟨-, htext⟩
    rw [← incomplete_message p n] at htext
    have hnumber : m.repr.toList ++ (" closing parenthes" ++ if m = 1 then "is" else "es").toList =
        n.repr.toList ++ (" closing parenthes" ++ if n = 1 then "is" else "es").toList := by
      rw [← String.toList_append, ← String.toList_append]
      apply congrArg String.toList
      simpa [incomplete, String.append_assoc, toString] using htext
    exact eq_of_repr_append (by simp) (by simp) hnumber
  · rintro rfl
    exact ⟨rfl, incomplete_message p m⟩

end ParseError

namespace Program

/-- The check reports a `)` at the place where the count finds it, and nowhere else. -/
theorem validate_reportsClose_iff {p : Program} {i : Nat} :
    (∃ report, p.validate = .error report ∧ report.ReportsClose (i + 1)) ↔
      strayClose? 0 p = some i := by
  rcases validate_cases p with ⟨hcount, hcheck⟩ | ⟨j, hstray, hcount, hcheck⟩ |
    ⟨n, hcount, hstray, hcheck⟩
  · have hnone : strayClose? 0 p = none := by
      rw [← Option.not_isSome_iff_eq_none, ← openAfter_eq_none_iff, ← missingRight, hcount]
      simp
    simp [hcheck, hnone]
  · simp [hcheck, hstray, ParseError.reportsClose_unexpectedClose_iff]
  · simp [hcheck, hstray, ParseError.ReportsClose, ParseError.incomplete]

/-- The check reports as many missing parentheses as the count finds. -/
theorem validate_reportsMissing_iff {p : Program} {n : Nat} :
    (∃ report, p.validate = .error report ∧ report.ReportsMissing n) ↔
      p.missingRight = some n ∧ 0 < n := by
  rcases validate_cases p with ⟨hcount, hcheck⟩ | ⟨j, hstray, hcount, hcheck⟩ |
    ⟨m, hcount, hstray, hcheck⟩
  · have hzero : ¬(0 = n ∧ 0 < n) := by omega
    simpa [hcheck, hcount] using hzero
  · simp [hcheck, hcount, ParseError.ReportsMissing, ParseError.unexpectedClose]
  · have hpos : m + 1 = n ↔ m + 1 = n ∧ 0 < n := by omega
    simpa [hcheck, hcount, ParseError.reportsMissing_incomplete_iff] using hpos

/-- The check, the count and the grammar accept the same programs. A program lacks `n` parentheses if
`n` of them complete it, and no other number does; it lacks no number if no continuation completes it.
The check reports the first `)` in front of which all is complete, by its place counted from one, or
else how many parentheses are missing. -/
theorem validate_grammar (p : Program) :
    ((p.validate = .ok () ↔ p.isValid = true) ∧ (p.isValid = true ↔ p.missingRight = some 0) ∧
      (p.missingRight = some 0 ↔ Derivable p)) ∧
    (∀ n, p.missingRight = some n ↔ isValid (p ++ List.replicate n .right) = true) ∧
    (∀ n, p.missingRight = some n →
      ∀ m, isValid (p ++ List.replicate m .right) = true → m = n) ∧
    (p.missingRight = none ↔ ∀ rest, isValid (p ++ rest) = false) ∧
    (∀ i, (∃ report, p.validate = .error report ∧ report.ReportsClose (i + 1)) ↔
      (p[i]? = some .right ∧ isValid (p.take i) = true) ∧
        ∀ j < i, ¬(p[j]? = some .right ∧ isValid (p.take j) = true)) ∧
    ∀ n, (∃ report, p.validate = .error report ∧ report.ReportsMissing n) ↔
      p.missingRight = some n ∧ 0 < n := by
  have hcount : p.isValid = true ↔ p.missingRight = some 0 := isValid_iff
  have hstray : ∀ i, strayClose? 0 p = some i ↔ p[i]? = some .right ∧ isValid (p.take i) = true := by
    intro i
    rw [strayClose?_eq_some_iff, isValid_iff]
  refine ⟨⟨validate_eq_ok_iff, hcount, hcount.symm.trans derivable_iff_isValid.symm⟩,
    fun n => missingRight_eq_some_iff, fun n hn m hm => ?_, missingRight_eq_none_iff, fun i => ?_,
    fun n => validate_reportsMissing_iff⟩
  · rw [← missingRight_eq_some_iff, hn] at hm
    exact (Option.some.inj hm).symm
  · rw [validate_reportsClose_iff, hstray]
    constructor
    · intro hi
      refine ⟨hi, fun j hlt hj => ?_⟩
      -- The search finds one place only, so an earlier one would be the same.
      have hsame := ((hstray i).mpr hi).symm.trans ((hstray j).mpr hj)
      have heq : i = j := Option.some.inj hsame
      omega
    · exact And.left

end Program

end FlatLisp
