import FlatLisp.Program.Parse

/-!
# Matching parentheses

Programs are flat, so whether the parentheses of a program match has to be followed through every
operation on tokens. Forms of a program match whatever the program is (`isValid_of_mem_split`), and
putting matching programs in for words keeps parentheses as they are (`isValid_substitute`).
`validate` and `parse` accept exactly the programs whose parentheses match.
-/

namespace FlatLisp.Program

variable {p : Program} {ts us : List Token} {depth after : Nat}

/-- Parentheses match if none is open before and after. -/
theorem isValid_iff : p.isValid = true ↔ openAfter 0 p = some 0 := by
  simp [isValid, missingRight]

/-- Tokens are counted from left to right. -/
theorem openAfter_append (depth : Nat) (ts us : List Token) :
    openAfter depth (ts ++ us) = (openAfter depth ts).bind (openAfter · us) := by
  fun_induction openAfter depth ts with
  | case1 => rfl
  | case2 depth ts ih => exact ih
  | case3 ts => rfl
  | case4 depth ts ih => exact ih
  | case5 depth w ts ih => exact ih

/-- Parentheses that are open all the while do not matter. -/
theorem openAfter_add (k : Nat) (h : openAfter depth ts = some after) :
    openAfter (depth + k) ts = some (after + k) := by
  fun_induction openAfter depth ts with
  | case1 => simp_all [openAfter]
  | case2 depth ts ih =>
    rw [openAfter, Nat.add_right_comm]
    exact ih h
  | case3 ts => cases h
  | case4 depth ts ih =>
    rw [Nat.succ_add, openAfter]
    exact ih h
  | case5 depth w ts ih => exact ih h

/-- A program with matching parentheses changes no count. -/
theorem openAfter_of_isValid (h : isValid ts = true) (depth : Nat) :
    openAfter depth ts = some depth := by
  have hadd := openAfter_add depth (isValid_iff.mp h)
  simpa using hadd

/-! ## Checking -/

/-- A `)` that closes nothing is found where the count breaks off. -/
theorem openAfter_eq_none_iff : openAfter depth ts = none ↔ (strayClose? depth ts).isSome = true := by
  fun_induction strayClose? depth ts with
  | case1 => simp [openAfter]
  | case2 depth ts ih => simpa [openAfter] using ih
  | case3 ts => simp [openAfter]
  | case4 depth ts ih => simpa [openAfter] using ih
  | case5 depth w ts ih => simpa [openAfter] using ih

/-- The check accepts exactly the programs whose parentheses match. -/
theorem validate_eq_ok_iff : p.validate = .ok () ↔ p.isValid = true := by
  rw [isValid_iff]
  unfold validate missingRight
  cases hstray : strayClose? 0 p with
  | some index =>
    have hcount : openAfter 0 p = none := openAfter_eq_none_iff.mpr (by rw [hstray]; rfl)
    simp [hcount]
  | none =>
    match hcount : openAfter 0 p with
    | none =>
      have hsome := openAfter_eq_none_iff.mp hcount
      simp [hstray] at hsome
    | some 0 => simp
    | some (missing + 1) => simp

/-- A program that the check refuses has a parenthesis without a partner. -/
theorem isValid_eq_false_of_validate {report : ParseError} (h : p.validate = .error report) :
    p.isValid = false := by
  rw [Bool.eq_false_iff, Ne, ← validate_eq_ok_iff, h]
  exact nofun

/-- What is parsed has matching parentheses. -/
theorem isValid_of_parse {comments : Bool} {text : String} (h : parse comments text = .ok p) :
    p.isValid = true := by
  change ((tokenize comments text).validate >>= fun _ => pure (tokenize comments text)) = _ at h
  cases hcheck : (tokenize comments text).validate with
  | error report =>
    rw [hcheck] at h
    cases h
  | ok _ =>
    rw [hcheck] at h
    cases h
    exact validate_eq_ok_iff.mp hcheck

/-! ## Forms -/

/-- Tokens whose last one closes every open parenthesis leave none open. -/
theorem openAfter_of_closesLast (hdepth : 0 < depth) (h : closesLast depth ts = true) :
    openAfter depth ts = some 0 := by
  fun_induction closesLast depth ts with
  | case1 => cases h
  | case2 depth ts ih => exact ih (Nat.succ_pos depth) h
  | case3 ts => exact absurd hdepth (Nat.lt_irrefl 0)
  | case4 ts =>
    rw [List.isEmpty_iff.mp h]
    rfl
  | case5 depth ts ih => exact ih (Nat.succ_pos depth) h
  | case6 depth w ts ih => exact ih hdepth h

/-- The parentheses of a combination match. -/
theorem isValid_of_isCombination (h : p.isCombination = true) : p.isValid = true := by
  match p with
  | .left :: ts =>
    rw [isValid_iff]
    change openAfter 1 ts = some 0
    exact openAfter_of_closesLast Nat.one_pos h

/-- The parentheses of every form match, if those of the combination being read are counted
right. -/
theorem isValid_of_mem_forms {group : List Token}
    (hgroup : depth ≠ 0 → openAfter 0 group.reverse = some depth) {q : Program}
    (hq : q ∈ forms depth group ts) : q.isValid = true := by
  fun_induction forms depth group ts with
  | case1 => cases hq
  | case2 group ts ih => exact ih (fun _ => rfl) hq
  | case3 group ts ih => exact ih (absurd rfl) hq
  | case4 group w ts ih =>
    rcases List.mem_cons.mp hq with rfl | hq
    · rfl
    · exact ih (absurd rfl) hq
  | case5 group depth ts ih =>
    refine ih (fun _ => ?_) hq
    rw [List.reverse_cons, openAfter_append, hgroup (Nat.succ_ne_zero _)]
    rfl
  | case6 group ts ih =>
    rcases List.mem_cons.mp hq with rfl | hq
    · rw [isValid_iff, List.reverse_cons, openAfter_append, hgroup Nat.one_ne_zero]
      rfl
    · exact ih (absurd rfl) hq
  | case7 group depth ts ih =>
    refine ih (fun _ => ?_) hq
    rw [List.reverse_cons, openAfter_append, hgroup (Nat.succ_ne_zero _)]
    rfl
  | case8 group depth w ts ih =>
    refine ih (fun _ => ?_) hq
    rw [List.reverse_cons, openAfter_append, hgroup (Nat.succ_ne_zero _)]
    rfl

/-- The parentheses of every direct part match, even if those of the program do not. -/
theorem isValid_of_mem_split {q : Program} (hq : q ∈ p.split) : q.isValid = true :=
  isValid_of_mem_forms (absurd rfl) hq

/-! ## Substitution -/

variable {bindings : List (Token × Program)}

/-- Putting matching programs in for words keeps the count of parentheses. -/
theorem openAfter_substitute
    (h : ∀ t q, replacement? bindings t = some q → (∃ w, t = .word w) ∧ isValid q = true)
    (depth : Nat) (ts : List Token) :
    openAfter depth (substitute bindings ts) = openAfter depth ts := by
  induction ts generalizing depth with
  | nil => rfl
  | cons t ts ih =>
    have hhead : openAfter depth ((replacement? bindings t).getD [t]) = openAfter depth [t] := by
      cases hreplaced : replacement? bindings t with
      | none => rfl
      | some q =>
        obtain ⟨⟨w, rfl⟩, hq⟩ := h t q hreplaced
        exact openAfter_of_isValid hq depth
    calc openAfter depth (substitute bindings (t :: ts))
        = (openAfter depth [t]).bind (openAfter · ts) := by
          rw [substitute, List.flatMap_cons, openAfter_append, hhead]
          exact congrArg _ (funext ih)
      _ = openAfter depth (t :: ts) := (openAfter_append depth [t] ts).symm

/-- Expanding a template whose parentheses match with forms whose parentheses match gives a program
whose parentheses match. -/
theorem isValid_substitute {formals : List String} {ps : List Program} (hp : p.isValid = true)
    (hps : ∀ q ∈ ps, q.isValid = true) :
    (p.substitute ((formals.map Token.word).zip ps)).isValid = true := by
  rw [isValid_iff, openAfter_substitute, isValid_iff.mp hp]
  intro t q hreplaced
  obtain ⟨entry, hfound, rfl⟩ := Option.map_eq_some_iff.mp hreplaced
  have hmem := List.of_mem_zip (List.mem_reverse.mp (List.mem_of_find?_eq_some hfound))
  obtain ⟨w, -, hw⟩ := List.mem_map.mp hmem.1
  have hkey : entry.1 = t := by simpa using List.find?_some hfound
  exact ⟨⟨w, hkey.symm.trans hw.symm⟩, hps _ hmem.2⟩

end FlatLisp.Program
