import FlatLisp.Proofs.Arithmetic.Conversion

/-!
# The order of real numbers

Two integers are compared exactly, and any other two real numbers by their places among the floats,
where an integer stands for the float nearest to it. Since integers keep their order as floats, a
number is below another (`Below`) if it is so by either measure. This is a strict order, so a pass from
left to right that gives up the best number so far only for a better one ends at one that no operand
is better than.

To be at most another number is less well behaved. Two integers out of order may have the same float,
and that float is then equal to both of them: `Straddles` is the only case in which the order is not
transitive.
-/

namespace FlatLisp

open Binary64 (placeOfInt placeOfInt_mono)

namespace Number

variable {a b c : Number}

/-- The real numbers. -/
def IsReal : Number → Prop
  | complex _ => False
  | _ => True

instance : DecidablePred IsReal
  | int _ | float _ => isTrue trivial
  | complex _ => isFalse id

/-- The real numbers without what is no number. -/
def IsOrdered : Number → Prop
  | int _ => True
  | float x => x.isNaN = false
  | complex _ => False

instance : DecidablePred IsOrdered
  | int _ => isTrue trivial
  | float x => inferInstanceAs (Decidable (x.isNaN = false))
  | complex _ => isFalse id

/-- The place of a real number among the floats. -/
def place? (a : Number) : Option Int :=
  a.toFloat?.bind Binary64.rank?

/-- The first number is less than the second: as integers, or by their places among the floats. -/
def Below (a b : Number) : Prop :=
  (∃ x y : Int64, a = .int x ∧ b = .int y ∧ x.toInt < y.toInt) ∨
    ∃ p q, a.place? = some p ∧ b.place? = some q ∧ p < q

/-- An integer stands at the place of the float nearest to it. -/
theorem place?_int (x : Int64) : place? (.int x) = some (placeOfInt x.toInt) :=
  Binary64.rank?_ofInt x.toInt

/-- What has an order is real. -/
theorem IsOrdered.isReal (h : a.IsOrdered) : a.IsReal := by
  cases a with
  | int _ | float _ => trivial
  | complex _ => exact h

/-- What has an order has a place. -/
theorem IsOrdered.exists_place (h : a.IsOrdered) : ∃ p, a.place? = some p := by
  cases a with
  | int x => exact ⟨_, place?_int x⟩
  | float x =>
    apply Option.ne_none_iff_exists'.mp
    change ¬Binary64.rank? x = none
    rw [Binary64.rank?_eq_none_iff, Bool.not_eq_true]
    exact h
  | complex _ => exact h.elim

/-! ## The strict order -/

/-- Integers in order do not change places as floats. -/
theorem below_int_iff {x y : Int64} : Below (.int x) (.int y) ↔ x.toInt < y.toInt := by
  constructor
  · intro h
    rcases h with ⟨x', y', hx, hy, hlt⟩ | ⟨p, q, hp, hq, hlt⟩
    · cases hx
      cases hy
      exact hlt
    · rw [place?_int, Option.some.injEq] at hp hq
      by_contra hle
      have := placeOfInt_mono (Int.not_lt.mp hle)
      omega
  · intro h
    exact .inl ⟨x, y, rfl, rfl, h⟩

theorem Below.irrefl (a : Number) : ¬Below a a := by
  intro h
  rcases h with ⟨x, y, hx, hy, hlt⟩ | ⟨p, q, hp, hq, hlt⟩
  · cases hx.symm.trans hy
    omega
  · cases hp.symm.trans hq
    omega

/-- The two measures go together: an integer below another does not stand above it as a float. -/
theorem Below.trans (hab : Below a b) (hbc : Below b c) : Below a c := by
  rcases hab with ⟨x, y, rfl, rfl, hxy⟩ | ⟨p, q, hp, hq, hpq⟩
  · rcases hbc with ⟨y', z, hy, rfl, hyz⟩ | ⟨q, r, hq, hr, hqr⟩
    · cases hy
      exact .inl ⟨x, z, rfl, rfl, by omega⟩
    · rw [place?_int, Option.some.injEq] at hq
      have := placeOfInt_mono hxy.le
      exact .inr ⟨_, r, place?_int x, hr, by omega⟩
  · rcases hbc with ⟨y, z, rfl, rfl, hyz⟩ | ⟨q', r, hq', hr, hqr⟩
    · rw [place?_int, Option.some.injEq] at hq
      have := placeOfInt_mono hyz.le
      exact .inr ⟨p, _, hp, place?_int z, by omega⟩
    · cases hq.symm.trans hq'
      exact .inr ⟨p, r, hp, hr, by omega⟩

/-! ## Comparisons -/

/-- What a comparison finds out. -/
structure IsOrderOf (found : Option Ordering) (a b : Number) : Prop where
  lt_iff : found = some .lt ↔ Below a b
  gt_iff : found = some .gt ↔ Below b a
  defined : a.IsOrdered → b.IsOrdered → found ≠ none

/-- The order of two integers. -/
theorem isOrderOf_int (x y : Int64) :
    IsOrderOf (some (Ord.compare x.toInt y.toInt)) (.int x) (.int y) where
  lt_iff := by rw [Option.some.injEq, Int.compare_eq_lt, below_int_iff]
  gt_iff := by rw [Option.some.injEq, Int.compare_eq_gt, below_int_iff]
  defined _ _ := Option.some_ne_none _

/-- The order of two floats, for real numbers that are not both integers. -/
theorem isOrderOf_float {x y : Float} (ha : a.toFloat? = some x) (hb : b.toFloat? = some y)
    (hmixed : ¬∃ m n, a = .int m ∧ b = .int n) : IsOrderOf (Binary64.compare? x y) a b := by
  have hp : a.place? = Binary64.rank? x := by rw [place?, ha, Option.bind_some]
  have hq : b.place? = Binary64.rank? y := by rw [place?, hb, Option.bind_some]
  have hbelow : Below a b ↔ ∃ p q, a.place? = some p ∧ b.place? = some q ∧ p < q :=
    or_iff_right fun ⟨m, n, hm, hn, _⟩ => hmixed ⟨m, n, hm, hn⟩
  have habove : Below b a ↔ ∃ p q, b.place? = some p ∧ a.place? = some q ∧ p < q :=
    or_iff_right fun ⟨m, n, hm, hn, _⟩ => hmixed ⟨n, m, hn, hm⟩
  refine ⟨?_, ?_, fun hordered hordered' => ?_⟩
  · rw [hbelow, hp, hq, Binary64.compare?]
    cases Binary64.rank? x <;> cases Binary64.rank? y <;> simp [Int.compare_eq_lt]
  · rw [habove, hp, hq, Binary64.compare?]
    cases Binary64.rank? x <;> cases Binary64.rank? y <;> simp [Int.compare_eq_gt]
  · obtain ⟨p, hp'⟩ := hordered.exists_place
    obtain ⟨q, hq'⟩ := hordered'.exists_place
    rw [Binary64.compare?, ← hp, ← hq, hp', hq']
    exact Option.some_ne_none _

/-- Real numbers can be compared, whatever the operation. -/
theorem exists_compare (operation : String) (ha : a.IsReal) (hb : b.IsReal) :
    ∃ found, compare operation a b = .ok found ∧ IsOrderOf found a b := by
  cases a with
  | int x =>
    cases b with
    | int y => exact ⟨_, rfl, isOrderOf_int x y⟩
    | float y => exact ⟨_, rfl, isOrderOf_float rfl rfl (by simp)⟩
    | complex _ => exact hb.elim
  | float x =>
    cases b with
    | int y => exact ⟨_, rfl, isOrderOf_float rfl rfl (by simp)⟩
    | float y => exact ⟨_, rfl, isOrderOf_float rfl rfl (by simp)⟩
    | complex _ => exact hb.elim
  | complex _ => exact ha.elim

/-- Complex numbers cannot be compared. -/
theorem compare_of_not_isReal (operation : String) (h : ¬(a.IsReal ∧ b.IsReal)) :
    compare operation a b = .error (.domain (.complexOperand operation)) := by
  cases a <;> cases b <;> first
    | rfl
    | exact absurd ⟨trivial, trivial⟩ h

/-! ## Extremes -/

/-- To be found in the order `wanted` to another number is to be better than it, in a strict order. -/
structure Prefers (wanted : Ordering) (better : Number → Number → Prop) : Prop where
  irrefl : ∀ a, ¬better a a
  trans : ∀ {a b c}, better a b → better b c → better a c
  found_iff : ∀ {found a b}, IsOrderOf found a b → (found = some wanted ↔ better a b)

theorem prefers_lt : Prefers .lt Below :=
  ⟨Below.irrefl, Below.trans, IsOrderOf.lt_iff⟩

theorem prefers_gt : Prefers .gt (fun a b => Below b a) :=
  ⟨Below.irrefl, fun hab hbc => hbc.trans hab, IsOrderOf.gt_iff⟩

section Extreme

variable {operation : String} {wanted : Ordering} {best candidate : Number} {rest : List Number}

/-- One step of a pass over real numbers. -/
theorem extreme_cons (operation : String) (wanted : Ordering) (hbest : best.IsReal)
    (hcandidate : candidate.IsReal) (rest : List Number) :
    ∃ found, IsOrderOf found candidate best ∧ extreme operation wanted best (candidate :: rest) =
      extreme operation wanted (if found = some wanted then candidate else best) rest := by
  obtain ⟨found, hfound, horder⟩ := exists_compare operation hcandidate hbest
  refine ⟨found, horder, ?_⟩
  rw [extreme, hfound]
  simp only [bind, Except.bind, beq_iff_eq]

/-- A pass over real numbers ends at one of them that none of them is better than. -/
theorem exists_extreme (operation : String) {better : Number → Number → Prop}
    (h : Prefers wanted better) (hreal : ∀ n ∈ best :: rest, n.IsReal) :
    ∃ m ∈ best :: rest, extreme operation wanted best rest = .ok m ∧
      (m = best ∨ better m best) ∧ ∀ n ∈ best :: rest, ¬better n m := by
  -- The number at the end is the first or a better one, so it may stand in for the first wherever a
  -- candidate was not better than that.
  induction rest generalizing best with
  | nil => exact ⟨best, by simp, rfl, .inl rfl, by simpa using h.irrefl best⟩
  | cons candidate rest ih =>
    have hbest := hreal best (by simp)
    have hcandidate := hreal candidate (by simp)
    have hrest : ∀ n ∈ rest, n.IsReal := fun n hn => hreal n (by simp [hn])
    obtain ⟨found, horder, hstep⟩ := extreme_cons operation wanted hbest hcandidate rest
    rw [hstep]
    by_cases hbetter : better candidate best
    · rw [if_pos ((h.found_iff horder).mpr hbetter)]
      obtain ⟨m, hm, hextreme, hchain, hnone⟩ := ih (List.forall_mem_cons.mpr ⟨hcandidate, hrest⟩)
      have hmbest : better m best := by
        rcases hchain with rfl | hchain
        · exact hbetter
        · exact h.trans hchain hbetter
      refine ⟨m, List.mem_cons_of_mem best hm, hextreme, .inr hmbest, ?_⟩
      refine List.forall_mem_cons.mpr ⟨fun hback => h.irrefl m (h.trans hmbest hback), hnone⟩
    · rw [if_neg (mt (h.found_iff horder).mp hbetter)]
      obtain ⟨m, hm, hextreme, hchain, hnone⟩ := ih (List.forall_mem_cons.mpr ⟨hbest, hrest⟩)
      obtain ⟨hnotBest, hnotRest⟩ := List.forall_mem_cons.mp hnone
      have hnotCandidate : ¬better candidate m := by
        intro hover
        rcases hchain with rfl | hchain
        · exact hbetter hover
        · exact hbetter (h.trans hover hchain)
      refine ⟨m, ?_, hextreme, hchain, by simpa [hnotBest, hnotCandidate] using hnotRest⟩
      rcases List.mem_cons.mp hm with rfl | hm
      · exact List.mem_cons_self
      · simp [hm]

/-- A pass that comes to a complex number fails. -/
theorem extreme_of_not_isReal (hsome : ∃ n ∈ best :: candidate :: rest, ¬n.IsReal) :
    extreme operation wanted best (candidate :: rest) =
      .error (.domain (.complexOperand operation)) := by
  induction rest generalizing best candidate with
  | nil =>
    have hpair : ¬(candidate.IsReal ∧ best.IsReal) := by
      intro ⟨hcandidate, hbest⟩
      simp [hcandidate, hbest] at hsome
    rw [extreme, compare_of_not_isReal operation hpair]
    rfl
  | cons next rest ih =>
    by_cases hpair : candidate.IsReal ∧ best.IsReal
    · obtain ⟨hcandidate, hbest⟩ := hpair
      obtain ⟨found, -, hstep⟩ := extreme_cons operation wanted hbest hcandidate (next :: rest)
      have hlater : ∃ n ∈ next :: rest, ¬n.IsReal := by
        simpa [hcandidate, hbest] using hsome
      obtain ⟨n, hn, hcomplex⟩ := hlater
      rw [hstep]
      exact ih ⟨n, List.mem_cons_of_mem _ hn, hcomplex⟩
    · rw [extreme, compare_of_not_isReal operation hpair]
      rfl

end Extreme

/-! ## Transitivity -/

/-- Two integers out of order on the two sides of a float that is equal to both, since both are rounded
to it. -/
def Straddles (a b c : Number) : Prop :=
  ∃ (x z : Int64) (y : Float), a = .int x ∧ b = .float y ∧ c = .int z ∧ z < x ∧
    Binary64.compare? (floatOfInt x) y = some .eq ∧ Binary64.compare? (floatOfInt z) y = some .eq

/-- Numbers that follow each other are in order, but for integers that straddle a float. -/
theorem below_iff_straddles (ha : a.IsOrdered) (hb : b.IsOrdered) (hc : c.IsOrdered)
    (hab : ¬Below b a) (hbc : ¬Below c b) : Below c a ↔ Straddles a b c := by
  obtain ⟨p, hp⟩ := ha.exists_place
  obtain ⟨q, hq⟩ := hb.exists_place
  obtain ⟨r, hr⟩ := hc.exists_place
  have hpq : p ≤ q := Int.not_lt.mp fun h => hab (.inr ⟨q, p, hq, hp, h⟩)
  have hqr : q ≤ r := Int.not_lt.mp fun h => hbc (.inr ⟨r, q, hr, hq, h⟩)
  constructor
  · intro h
    rcases h with ⟨z, x, rfl, rfl, hlt⟩ | ⟨r', p', hr', hp', hlt⟩
    · cases b with
      | int y =>
        rw [below_int_iff] at hab hbc
        omega
      | float y =>
        have hrp : r ≤ p := by
          rw [place?_int, Option.some.injEq] at hp hr
          rw [← hp, ← hr]
          exact placeOfInt_mono hlt.le
        have hequal : ∀ {n : Int64}, place? (.int n) = some q →
            Binary64.compare? (floatOfInt n) y = some .eq := by
          intro n hn
          change Binary64.rank? (floatOfInt n) = some q at hn
          change Binary64.rank? y = some q at hq
          rw [Binary64.compare?, hn, hq]
          simp
        have hpq' : p = q := by omega
        have hrq' : r = q := by omega
        rw [hpq'] at hp
        rw [hrq'] at hr
        exact ⟨x, z, y, rfl, rfl, rfl, Int64.lt_iff_toInt_lt.mpr hlt, hequal hp, hequal hr⟩
      | complex _ => exact hb.elim
    · cases hr.symm.trans hr'
      cases hp.symm.trans hp'
      omega
  · rintro ⟨x, z, y, rfl, -, rfl, hlt, -⟩
    exact below_int_iff.mpr (Int64.lt_iff_toInt_lt.mp hlt)

end Number

/-! ## The builtin comparisons -/

open Number

variable {E : Type} [Embedding E]

/-- What a comparison of two numbers answers, whichever function stands for it and wherever it is
called. -/
def Builtin.Answers (E : Type) [Embedding E] (comparison : Builtin) (a b : Number) (answer : Bool) :
    Prop :=
  ∀ (id : Nat) (label : Option String) (s : ScopeId) (w : World E),
    (comparison.callOnAll id label s [a, b] w).1 = .ok (.bool answer)

/-- A comparison answers what its orders come to. -/
theorem Builtin.answers_iff {comparison : Builtin} (name : String) (wanted : List Ordering)
    (hcomparison : (comparison.typed : Typed E) = Builtin.comparison name wanted) {a b : Number}
    (ha : a.IsReal) (hb : b.IsReal) {p : Prop}
    (hp : ∀ found, IsOrderOf found a b → (found.any wanted.contains = true ↔ p)) {answer : Bool} :
    comparison.Answers E a b answer ↔ (answer = true ↔ p) := by
  obtain ⟨found, hfound, horder⟩ := exists_compare name ha hb
  have houtcome : ordered name wanted a b = .ok (found.any wanted.contains) := by
    rw [ordered, hfound]
    cases found <;> rfl
  unfold Builtin.Answers
  simp only [Builtin.outcome_comparison hcomparison, houtcome, ← hp found horder]
  constructor
  · intro h
    have hanswer := h 0 none 0 World.empty
    simp only [Except.map, Except.ok.injEq, Value.bool.injEq] at hanswer
    rw [hanswer]
  · intro h id label s w
    rw [Bool.eq_iff_iff.mpr h]
    rfl

/-- `<` finds a number below another. -/
theorem Builtin.answers_less_iff {a b : Number} (ha : a.IsReal) (hb : b.IsReal) {answer : Bool} :
    Builtin.less.Answers E a b answer ↔ (answer = true ↔ Below a b) := by
  apply Builtin.answers_iff "<" [.lt] rfl ha hb
  intro found horder
  rw [← horder.lt_iff]
  cases found <;> simp

/-- `>` finds a number above another. -/
theorem Builtin.answers_greater_iff {a b : Number} (ha : a.IsReal) (hb : b.IsReal) {answer : Bool} :
    Builtin.greater.Answers E a b answer ↔ (answer = true ↔ Below b a) := by
  apply Builtin.answers_iff ">" [.gt] rfl ha hb
  intro found horder
  rw [← horder.gt_iff]
  cases found <;> simp

/-- `<=` finds a number that is not above another. -/
theorem Builtin.answers_lessEqual_iff {a b : Number} (ha : a.IsOrdered) (hb : b.IsOrdered)
    {answer : Bool} : Builtin.lessEqual.Answers E a b answer ↔ (answer = true ↔ ¬Below b a) := by
  apply Builtin.answers_iff "<=" [.lt, .eq] rfl ha.isReal hb.isReal
  intro found horder
  rw [← horder.gt_iff]
  cases found with
  | none => exact absurd rfl (horder.defined ha hb)
  | some order => cases order <;> simp

/-- One of three statements is true, and no other. -/
def ExactlyOne (p q r : Prop) : Prop :=
  (p ∧ ¬q ∧ ¬r) ∨ (¬p ∧ q ∧ ¬r) ∨ (¬p ∧ ¬q ∧ r)

/-- The comparisons of two real numbers that are numbers always answer, and exactly one of three cases
is true: the first is less, the second is less, or each is at most the other. If each of three numbers
is at most the next, then the first is at most the last, unless the first and the last are integers
out of order that are both rounded to the float between them. -/
theorem comparisons_order_reals {a b c : Number} (ha : a.IsOrdered) (hb : b.IsOrdered)
    (hc : c.IsOrdered) :
    (∀ comparison ∈ [Builtin.less, .lessEqual], ∃ answer, comparison.Answers E a b answer) ∧
    ExactlyOne (Builtin.less.Answers E a b true) (Builtin.less.Answers E b a true)
      (Builtin.lessEqual.Answers E a b true ∧ Builtin.lessEqual.Answers E b a true) ∧
    (Builtin.lessEqual.Answers E a b true → Builtin.lessEqual.Answers E b c true →
      (Builtin.lessEqual.Answers E a c true ↔ ¬Straddles a b c)) := by
  classical
  have hless : ∀ x y : Number, x.IsOrdered → y.IsOrdered →
      (Builtin.less.Answers E x y true ↔ Below x y) := by
    intro x y hx hy
    rw [Builtin.answers_less_iff hx.isReal hy.isReal]
    simp
  have hlessEqual : ∀ x y : Number, x.IsOrdered → y.IsOrdered →
      (Builtin.lessEqual.Answers E x y true ↔ ¬Below y x) := by
    intro x y hx hy
    rw [Builtin.answers_lessEqual_iff hx hy]
    simp
  refine ⟨?_, ?_, ?_⟩
  · simp only [List.mem_cons, List.not_mem_nil, or_false, forall_eq_or_imp, forall_eq]
    refine ⟨⟨decide (Below a b), ?_⟩, ⟨decide (¬Below b a), ?_⟩⟩
    · rw [Builtin.answers_less_iff ha.isReal hb.isReal, decide_eq_true_eq]
    · rw [Builtin.answers_lessEqual_iff ha hb, decide_eq_true_eq]
  · rw [hless a b ha hb, hless b a hb ha, hlessEqual a b ha hb, hlessEqual b a hb ha]
    have hasymm : ¬(Below a b ∧ Below b a) := fun ⟨h, h'⟩ => Below.irrefl a (h.trans h')
    unfold ExactlyOne
    tauto
  · rw [hlessEqual a b ha hb, hlessEqual b c hb hc, hlessEqual a c ha hc]
    intro hab hbc
    rw [below_iff_straddles ha hb hc hab hbc]

/-- Near `2 ^ 53` an integer may be at most a float, and this at most a smaller integer: the float is
equal to both. -/
theorem comparisons_order_reals_rounded :
    (Number.int 9007199254740993).IsOrdered ∧ (Number.float 9007199254740992).IsOrdered ∧
    (Number.int 9007199254740992).IsOrdered ∧
    Builtin.lessEqual.Answers Empty (.int 9007199254740993) (.float 9007199254740992) true ∧
    Builtin.lessEqual.Answers Empty (.float 9007199254740992) (.int 9007199254740992) true ∧
    Builtin.lessEqual.Answers Empty (.int 9007199254740993) (.int 9007199254740992) false := by
  refine ⟨by decide, by decide, by decide, ?_, ?_, ?_⟩
  all_goals
    intro id label s w
    rw [Builtin.outcome_comparison rfl]
    rfl

/-- Of three such numbers in order, the first is at most the last. -/
theorem comparisons_order_reals_inOrder :
    (Number.int 9007199254740993).IsOrdered ∧ (Number.float 9007199254740992).IsOrdered ∧
    (Number.int 9007199254740994).IsOrdered ∧
    Builtin.lessEqual.Answers Empty (.int 9007199254740993) (.int 9007199254740994) true := by
  have hfirst : (Number.int 9007199254740993).IsOrdered := by decide
  have hmiddle : (Number.float 9007199254740992).IsOrdered := by decide
  have hlast : (Number.int 9007199254740994).IsOrdered := by decide
  refine ⟨hfirst, hmiddle, hlast, ?_⟩
  apply ((comparisons_order_reals (E := Empty) hfirst hmiddle hlast).2.2 ?_ ?_).mpr
  · rintro ⟨x, z, y, hx, -, hz, hlt, -⟩
    cases hx
    cases hz
    exact absurd hlt (by decide)
  · intro id label s w
    rw [Builtin.outcome_comparison rfl]
    rfl
  · intro id label s w
    rw [Builtin.outcome_comparison rfl]
    rfl

/-! ## The builtin extremes -/

/-- What the extreme of two or more numbers may come to. If all are real, it is one of them, as it is,
than which no operand compares as better; and if some are not, it fails. -/
structure IsExtreme (comparison : Builtin) (operands : List Number)
    (outcome : Except Error (Value E)) : Prop where
  undominated : (∀ n ∈ operands, n.IsReal) →
    ∃ m ∈ operands, outcome = .ok (.ofNumber m) ∧ ∀ n ∈ operands, comparison.Answers E n m false
  refused : (∃ n ∈ operands, ¬n.IsReal) → ∃ fault, outcome = .error (.domain fault)

/-- A pass over two or more numbers ends at an extreme one, as its comparison has it. -/
theorem isExtreme_extreme (operation : String) {wanted : Ordering} {comparison : Builtin}
    {better : Number → Number → Prop} (h : Prefers wanted better)
    (hworse : ∀ {n m : Number}, n.IsReal → m.IsReal → ¬better n m → comparison.Answers E n m false)
    (a b : Number) (rest : List Number) :
    IsExtreme comparison (a :: b :: rest)
      ((extreme operation wanted a (b :: rest)).map Value.ofNumber : Except Error (Value E)) where
  undominated hreal := by
    obtain ⟨m, hm, hextreme, -, hnone⟩ := exists_extreme operation h hreal
    rw [hextreme]
    exact ⟨m, hm, rfl, fun n hn => hworse (hreal n hn) (hreal m hm) (hnone n hn)⟩
  refused hsome := by
    rw [extreme_of_not_isReal hsome]
    exact ⟨_, rfl⟩

/-- The greatest of two or more real numbers is one of them that no operand is greater than, and the
least one that no operand is less than, in whatever order they come and also if some are no numbers.
Complex numbers are refused. -/
theorem extremes_undominated (id : Nat) (label : Option String) (s : ScopeId) (a b : Number)
    (rest : List Number) (w : World E) :
    IsExtreme .greater (a :: b :: rest) (Builtin.max.callOnAll id label s (a :: b :: rest) w).1 ∧
    IsExtreme .less (a :: b :: rest) (Builtin.min.callOnAll id label s (a :: b :: rest) w).1 := by
  rw [Builtin.outcome_folded (extreme "max" .gt) rfl, Builtin.outcome_folded (extreme "min" .lt) rfl]
  constructor
  · apply isExtreme_extreme "max" prefers_gt
    intro n m hn hm hnot
    rw [Builtin.answers_greater_iff hn hm]
    simpa using hnot
  · apply isExtreme_extreme "min" prefers_lt
    intro n m hn hm hnot
    rw [Builtin.answers_less_iff hn hm]
    simpa using hnot

end FlatLisp
