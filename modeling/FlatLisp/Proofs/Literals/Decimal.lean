import FlatLisp.Proofs.Literals.Integer

/-!
# The grammar of floats in text

Text is read as a float just if it is a sign, or none, followed by a decimal or by one of the names of
infinity and of what is no number (`Binary64.IsFloatText`). A decimal has digits on at least one side of
its point, if it has one, and may end in an exponent, which is an integer behind an `e`.
-/

namespace FlatLisp.Binary64

open Numeral

variable {cs whole fraction rest : List Char}

/-! ## The grammar -/

/-- Whether all of `cs` are ASCII digits; there may be none. -/
def AllDigits (cs : List Char) : Prop :=
  ∀ c ∈ cs, '0' ≤ c ∧ c ≤ '9'

/-- Digits with at most one point, and with a digit on one side of it. -/
inductive IsMantissa : List Char → Prop
  | whole {whole : List Char} (h : IsDigits whole) : IsMantissa whole
  | pointAfter {whole fraction : List Char} (hwhole : IsDigits whole) (hfraction : AllDigits fraction) :
      IsMantissa (whole ++ '.' :: fraction)
  | pointBefore {whole fraction : List Char} (hwhole : AllDigits whole) (hfraction : IsDigits fraction) :
      IsMantissa (whole ++ '.' :: fraction)

/-- An exponent, or none. -/
inductive IsExponent : List Char → Prop
  | omitted : IsExponent []
  | spelled {e : Char} {cs : List Char} {n : Int} (he : e = 'e' ∨ e = 'E') (h : Spells cs n) :
      IsExponent (e :: cs)

/-- One of the names, in any case. -/
def IsName (cs : List Char) : Prop :=
  String.ofList (cs.map Char.toLower) ∈ ["inf", "infinity", "nan"]

/-- A decimal with or without an exponent, or a name. -/
inductive IsMagnitude : List Char → Prop
  | decimal {mantissa exponent : List Char} (hmantissa : IsMantissa mantissa)
      (hexponent : IsExponent exponent) : IsMagnitude (mantissa ++ exponent)
  | name {cs : List Char} (h : IsName cs) : IsMagnitude cs

/-- The text of a float: a sign, if any, and a magnitude. -/
def IsFloatText (cs : List Char) : Prop :=
  ∃ sign negative magnitude, SpellsSign sign negative ∧ IsMagnitude magnitude ∧ cs = sign ++ magnitude

/-! ## The point -/

/-- Digits as the reader tells them. -/
theorem allDigits_iff : AllDigits cs ↔ ∀ c ∈ cs, c.isDigit = true := by
  simp only [AllDigits, isDigit_iff]

/-- Digits in front of something else are split off. -/
theorem span_digits (h : AllDigits cs) (hrest : ∀ c ∈ rest.head?, c.isDigit = false) :
    (cs ++ rest).takeWhile Char.isDigit = cs ∧ (cs ++ rest).dropWhile Char.isDigit = rest := by
  rw [allDigits_iff] at h
  rw [List.takeWhile_append_of_pos h, List.dropWhile_append_of_pos h]
  cases rest with
  | nil => exact ⟨List.append_nil cs, rfl⟩
  | cons c rest =>
    have hc := hrest c rfl
    simp [hc]

/-- The digits on the two sides of a point. -/
theorem splitPoint_of_point (hwhole : AllDigits whole) (hfraction : AllDigits fraction)
    (hrest : ∀ c ∈ rest.head?, c.isDigit = false) :
    splitPoint (whole ++ '.' :: fraction ++ rest) = (whole, fraction, rest) := by
  rw [List.append_assoc, List.cons_append]
  have hpoint : ∀ c ∈ ('.' :: (fraction ++ rest)).head?, c.isDigit = false := by
    rintro c ⟨⟩
    rfl
  obtain ⟨htake, hdrop⟩ := span_digits hwhole hpoint
  obtain ⟨htake', hdrop'⟩ := span_digits hfraction hrest
  simp only [splitPoint, htake, hdrop, htake', hdrop']

/-- Digits without a point. -/
theorem splitPoint_of_whole (hwhole : AllDigits whole)
    (hrest : ∀ c ∈ rest.head?, c.isDigit = false ∧ c ≠ '.') :
    splitPoint (whole ++ rest) = (whole, [], rest) := by
  obtain ⟨htake, hdrop⟩ := span_digits hwhole fun c hc => (hrest c hc).1
  simp only [splitPoint, htake, hdrop]
  split
  · exact absurd rfl (hrest '.' rfl).2
  · rfl

/-- What is split off are digits, around a point if there is one. -/
theorem splitPoint_cases (cs : List Char) :
    ∃ whole fraction rest, splitPoint cs = (whole, fraction, rest) ∧ AllDigits whole ∧
      AllDigits fraction ∧
      (cs = whole ++ '.' :: fraction ++ rest ∨ fraction = [] ∧ cs = whole ++ rest) := by
  have hdigits (ds : List Char) : AllDigits (ds.takeWhile Char.isDigit) :=
    allDigits_iff.mpr fun c hc => List.mem_takeWhile_imp hc
  have happend : cs.takeWhile Char.isDigit ++ cs.dropWhile Char.isDigit = cs :=
    List.takeWhile_append_dropWhile
  unfold splitPoint
  split
  · next rest hdrop =>
    refine ⟨_, _, _, rfl, hdigits cs, hdigits rest, .inl ?_⟩
    rw [List.append_assoc, List.cons_append, List.takeWhile_append_dropWhile, ← hdrop, happend]
  · exact ⟨_, _, _, rfl, hdigits cs, nofun, .inr ⟨rfl, happend.symm⟩⟩

/-! ## Reading -/

/-- An exponent is read from its spellings and from nothing else. -/
theorem exists_readExponent?_iff : (∃ n, readExponent? cs = some n) ↔ IsExponent cs := by
  constructor
  · rintro ⟨n, hn⟩
    cases cs with
    | nil => exact .omitted
    | cons e cs =>
      simp only [readExponent?, Option.ite_none_right_eq_some, int?_eq_some_iff] at hn
      exact .spelled hn.1 hn.2
  · rintro (_ | ⟨he, h⟩)
    · exact ⟨0, rfl⟩
    · exact ⟨_, by rw [readExponent?, if_pos he, int?_eq_some_iff.mpr h]⟩

/-- An exponent starts with neither a digit nor a point. -/
theorem IsExponent.head (h : IsExponent cs) : ∀ c ∈ cs.head?, c.isDigit = false ∧ c ≠ '.' := by
  cases h with
  | omitted => nofun
  | spelled he _ =>
    rintro c ⟨⟩
    rcases he with rfl | rfl <;> decide

/-- A mantissa is split into digits of which there is one at least. -/
theorem IsMantissa.splitPoint (h : IsMantissa cs) (hrest : IsExponent rest) :
    ∃ whole fraction, splitPoint (cs ++ rest) = (whole, fraction, rest) ∧
      ¬(whole = [] ∧ fraction = []) := by
  have hdigit : ∀ c ∈ rest.head?, c.isDigit = false := fun c hc => (hrest.head c hc).1
  cases h with
  | whole h => exact ⟨cs, [], splitPoint_of_whole h.2 hrest.head, fun hnone => h.1 hnone.1⟩
  | pointAfter hwhole hfraction =>
    exact ⟨_, _, splitPoint_of_point hwhole.2 hfraction hdigit, fun hnone => hwhole.1 hnone.1⟩
  | pointBefore hwhole hfraction =>
    exact ⟨_, _, splitPoint_of_point hwhole hfraction.2 hdigit, fun hnone => hfraction.1 hnone.2⟩

/-- An unsigned decimal is read from a mantissa and an exponent, and from nothing else. -/
theorem exists_readDecimal?_iff : (∃ d, readDecimal? cs = some d) ↔
    ∃ mantissa exponent, IsMantissa mantissa ∧ IsExponent exponent ∧ cs = mantissa ++ exponent := by
  constructor
  · rintro ⟨d, hd⟩
    obtain ⟨whole, fraction, rest, hsplit, hwhole, hfraction, hcs⟩ := splitPoint_cases cs
    simp only [readDecimal?, hsplit, Option.ite_none_left_eq_some, Bool.and_eq_true,
      List.isEmpty_iff, Option.map_eq_some_iff] at hd
    obtain ⟨hsome, n, hn, -⟩ := hd
    have hexponent := exists_readExponent?_iff.mp ⟨n, hn⟩
    rcases hcs with hcs | ⟨hnone, hcs⟩
    · by_cases hempty : whole = []
      · have hne : fraction ≠ [] := fun hfraction => hsome ⟨hempty, hfraction⟩
        exact ⟨_, rest, .pointBefore hwhole ⟨hne, hfraction⟩, hexponent, hcs⟩
      · exact ⟨_, rest, .pointAfter ⟨hempty, hwhole⟩ hfraction, hexponent, hcs⟩
    · exact ⟨whole, rest, .whole ⟨fun hempty => hsome ⟨hempty, hnone⟩, hwhole⟩, hexponent, hcs⟩
  · rintro ⟨mantissa, exponent, hmantissa, hexponent, rfl⟩
    obtain ⟨whole, fraction, hsplit, hsome⟩ := hmantissa.splitPoint hexponent
    obtain ⟨n, hn⟩ := exists_readExponent?_iff.mpr hexponent
    refine ⟨⟨value (whole ++ fraction), n - fraction.length⟩, ?_⟩
    simp only [readDecimal?, hsplit, hn, Option.map_some]
    rw [if_neg]
    simpa only [Bool.and_eq_true, List.isEmpty_iff] using hsome

/-- A name is read from its spellings and from nothing else. -/
theorem exists_readName?_iff : (∃ x, readName? cs = some x) ↔ IsName cs := by
  unfold readName? IsName
  generalize String.ofList (cs.map Char.toLower) = name
  split <;> simp_all

/-- A magnitude is read from its spellings and from nothing else. -/
theorem exists_readMagnitude?_iff : (∃ x, readMagnitude? cs = some x) ↔ IsMagnitude cs := by
  constructor
  · rintro ⟨x, hx⟩
    unfold readMagnitude? at hx
    split at hx
    · next d hd =>
      obtain ⟨mantissa, exponent, hmantissa, hexponent, rfl⟩ := exists_readDecimal?_iff.mp ⟨d, hd⟩
      exact .decimal hmantissa hexponent
    · exact .name (exists_readName?_iff.mp ⟨x, hx⟩)
  · intro h
    unfold readMagnitude?
    cases hd : readDecimal? cs with
    | some d => exact ⟨_, rfl⟩
    | none =>
      cases h with
      | decimal hmantissa hexponent =>
        obtain ⟨d, hd'⟩ := exists_readDecimal?_iff.mpr ⟨_, _, hmantissa, hexponent, rfl⟩
        rw [hd] at hd'
        cases hd'
      | name h => exact exists_readName?_iff.mpr h

/-! ## Signs -/

/-- Whether there is neither a sign nor an `e` in `cs`. -/
def IsUnmarked (cs : List Char) : Prop :=
  ∀ c ∈ cs, c ∉ ['+', '-', 'e', 'E']

/-- What has no sign in it does not start with one. -/
theorem IsUnmarked.isUnsigned (h : IsUnmarked cs) : IsUnsigned cs := by
  intro c hc
  have hplain := h c (List.mem_of_mem_head? hc)
  simp only [List.mem_cons, not_or] at hplain
  exact ⟨hplain.1, hplain.2.1⟩

/-- Digits are no marks. -/
theorem AllDigits.isUnmarked (h : AllDigits cs) : IsUnmarked cs := by
  intro c hc hmark
  have hdigit := h c hc
  simp only [List.mem_cons, List.not_mem_nil, or_false] at hmark
  rcases hmark with rfl | rfl | rfl | rfl <;> exact absurd hdigit (by decide)

/-- A mantissa consists of digits and a point. -/
theorem IsMantissa.isUnmarked (h : IsMantissa cs) : IsUnmarked cs := by
  have hpoint {whole fraction : List Char} (hwhole : AllDigits whole) (hfraction : AllDigits fraction) :
      IsUnmarked (whole ++ '.' :: fraction) := by
    refine List.forall_mem_append.mpr ⟨hwhole.isUnmarked, List.forall_mem_cons.mpr ⟨?_, ?_⟩⟩
    · decide
    · exact hfraction.isUnmarked
  cases h with
  | whole h => exact AllDigits.isUnmarked h.2
  | pointAfter hwhole hfraction => exact hpoint hwhole.2 hfraction
  | pointBefore hwhole hfraction => exact hpoint hwhole hfraction.2

/-- The names are spelled with other letters. -/
theorem IsName.isUnmarked (h : IsName cs) : IsUnmarked cs := by
  intro c hc hmark
  have hlower : c.toLower ∈ (String.ofList (cs.map Char.toLower)).toList := by
    rw [String.toList_ofList]
    exact List.mem_map_of_mem hc
  unfold IsName at h
  generalize String.ofList (cs.map Char.toLower) = name at h hlower
  simp only [List.mem_cons, List.not_mem_nil, or_false] at h hmark
  rcases h with rfl | rfl | rfl <;> rcases hmark with rfl | rfl | rfl | rfl <;>
    exact absurd hlower (by decide)

/-- A mantissa is not empty. -/
theorem IsMantissa.ne_nil (h : IsMantissa cs) : cs ≠ [] := by
  cases h with
  | whole h => exact h.1
  | pointAfter | pointBefore => exact List.append_ne_nil_of_right_ne_nil _ (List.cons_ne_nil _ _)

/-- A name is not empty. -/
theorem IsName.ne_nil (h : IsName cs) : cs ≠ [] := by
  rintro rfl
  simp [IsName] at h

/-- No magnitude is empty. -/
theorem IsMagnitude.ne_nil (h : IsMagnitude cs) : cs ≠ [] := by
  cases h with
  | decimal hmantissa => exact List.append_ne_nil_of_left_ne_nil hmantissa.ne_nil _
  | name h => exact h.ne_nil

/-- No magnitude starts with a sign. -/
theorem IsMagnitude.isUnsigned (h : IsMagnitude cs) : IsUnsigned cs := by
  cases h with
  | decimal hmantissa =>
    intro c hc
    rw [List.head?_append_of_ne_nil _ hmantissa.ne_nil] at hc
    exact hmantissa.isUnmarked.isUnsigned c hc
  | name h => exact h.isUnmarked.isUnsigned

/-- A float is read from its text and from nothing else. -/
theorem exists_read?_iff : (∃ x, read? cs = some x) ↔ IsFloatText cs := by
  constructor
  · rintro ⟨x, hx⟩
    obtain ⟨sign, hsign, hcs⟩ := exists_sign cs
    obtain ⟨y, hy, -⟩ := Option.map_eq_some_iff.mp hx
    exact ⟨sign, _, _, hsign, exists_readMagnitude?_iff.mp ⟨y, hy⟩, hcs⟩
  · rintro ⟨sign, negative, magnitude, hsign, hmagnitude, rfl⟩
    obtain ⟨y, hy⟩ := exists_readMagnitude?_iff.mpr hmagnitude
    simp only [read?, splitSign_append hsign hmagnitude.isUnsigned, hy, Option.map_some]
    exact ⟨_, rfl⟩

end FlatLisp.Binary64
