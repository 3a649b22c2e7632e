import FlatLisp.Proofs.Literals.Decimal
import FlatLisp.Proofs.Snapshot.ByteOrder
import Mathlib.Data.List.Chain

/-!
# Complex numbers in text

A complex literal is a float for the imaginary part and a `j`, with a signed imaginary part after a float
for the real part, if there is one (`Complex.Decomposes`). The two are told apart at the last sign that
is not the sign of an exponent. Within a float every sign but the first one belongs to an exponent, and
no float ends in the `e` of one; so this is the only place at which two floats can meet.

The place can be found in the bytes of the text as well (`Complex.lastBreak?`), since signs and the `e`
are bytes of their own: it never lies within a character.
-/

namespace FlatLisp

/-! ## Last breaks -/

section Breaks

variable {α : Type} {R : α → α → Prop} {front back front' back' : List α}

/-- Whether a list falls into `front` and `back` at the last place where an element does not continue
what stands before it, as `R` has it. If there is no such place, nothing is in front. -/
structure IsLastBreak (R : α → α → Prop) (front back : List α) : Prop where
  chain : back.IsChain R
  breaks : front = [] ∨ ∃ p ∈ front.getLast?, ∃ c ∈ back.head?, ¬R p c

/-- No later place is the last one. -/
theorem IsLastBreak.eq_nil {middle : List α} (hchain : (middle ++ back).IsChain R)
    (h : IsLastBreak R (front ++ middle) back) : middle = [] := by
  by_contra hne
  rcases h.breaks with hnil | ⟨p, hp, c, hc, hbreak⟩
  · exact hne (List.append_eq_nil_iff.mp hnil).2
  · rw [List.getLast?_append_of_ne_nil _ hne] at hp
    exact hbreak ((List.isChain_append.mp hchain).2.2 p hp c hc)

/-- A list has one last place. -/
theorem IsLastBreak.unique (h : IsLastBreak R front back) (h' : IsLastBreak R front' back')
    (heq : front ++ back = front' ++ back') : front = front' ∧ back = back' := by
  rcases List.append_eq_append_iff.mp heq with ⟨middle, rfl, rfl⟩ | ⟨middle, rfl, rfl⟩
  · have hnil := h'.eq_nil h.chain
    simp [hnil]
  · have hnil := h.eq_nil h'.chain
    simp [hnil]

end Breaks

namespace Complex

open Numeral Binary64

/-! ## Signs in floats -/

/-- Whether `c` can stand after `p` in one float: a sign only as that of an exponent. -/
def Continues (p c : Char) : Prop :=
  c = '+' ∨ c = '-' → p = 'e' ∨ p = 'E'

/-- Text without signs is all of one piece. -/
theorem isChain_of_isUnmarked {cs : List Char} (h : IsUnmarked cs) : cs.IsChain Continues := by
  refine (List.pairwise_of_forall_mem_list fun p _ c hc hsign => ?_).isChain
  have hplain := h c hc
  simp only [List.mem_cons, not_or] at hplain
  exact absurd hsign (not_or.mpr ⟨hplain.1, hplain.2.1⟩)

/-- A sign in front starts a piece. -/
theorem isChain_sign_append {sign cs : List Char} {negative : Bool} (hsign : SpellsSign sign negative)
    (hcs : cs.IsChain Continues) (hunsigned : IsUnsigned cs) : (sign ++ cs).IsChain Continues := by
  have hfirst (p : Char) : (p :: cs).IsChain Continues :=
    List.isChain_cons.mpr ⟨fun c hc hmark => absurd hmark (not_or.mpr (hunsigned c hc)), hcs⟩
  cases hsign with
  | omitted => exact hcs
  | plus => exact hfirst '+'
  | minus => exact hfirst '-'

/-- A float is all of one piece. -/
theorem isChain_of_isFloatText {cs : List Char} (h : IsFloatText cs) : cs.IsChain Continues := by
  obtain ⟨sign, negative, magnitude, hsign, hmagnitude, rfl⟩ := h
  refine isChain_sign_append hsign ?_ hmagnitude.isUnsigned
  cases hmagnitude with
  | name h => exact isChain_of_isUnmarked h.isUnmarked
  | decimal hmantissa hexponent =>
    refine List.isChain_append.mpr ⟨isChain_of_isUnmarked hmantissa.isUnmarked, ?_, ?_⟩
    · cases hexponent with
      | omitted => exact .nil
      | spelled he h =>
        obtain ⟨sign, negative, digits, hsign, hdigits, rfl, -⟩ := h
        have hchain := isChain_of_isUnmarked (AllDigits.isUnmarked hdigits.2)
        exact List.isChain_cons.mpr
          ⟨fun _ _ _ => he, isChain_sign_append hsign hchain hdigits.isUnsigned⟩
    · cases hexponent with
      | omitted => nofun
      | spelled he _ =>
        rintro p - c ⟨⟩ (rfl | rfl) <;> exact absurd he (by decide)

/-- No float ends in the `e` of an exponent. -/
theorem last_of_isFloatText {cs : List Char} (h : IsFloatText cs) :
    ∃ p ∈ cs.getLast?, p ≠ 'e' ∧ p ≠ 'E' := by
  have hunmarked {ds : List Char} (hne : ds ≠ []) (hds : IsUnmarked ds) :
      ∃ p ∈ ds.getLast?, p ≠ 'e' ∧ p ≠ 'E' := by
    have hplain := hds _ (List.getLast_mem hne)
    simp only [List.mem_cons, List.not_mem_nil, or_false, not_or] at hplain
    exact ⟨_, List.getLast?_eq_some_getLast hne, hplain.2.2⟩
  obtain ⟨sign, negative, magnitude, hsign, hmagnitude, rfl⟩ := h
  rw [List.getLast?_append_of_ne_nil _ hmagnitude.ne_nil]
  cases hmagnitude with
  | name h => exact hunmarked h.ne_nil h.isUnmarked
  | decimal hmantissa hexponent =>
    cases hexponent with
    | omitted =>
      rw [List.append_nil]
      exact hunmarked hmantissa.ne_nil hmantissa.isUnmarked
    | @spelled e cs _ _ h =>
      obtain ⟨sign, negative, digits, hsign, hdigits, rfl, -⟩ := h
      rw [← List.cons_append, ← List.append_assoc, List.getLast?_append_of_ne_nil _ hdigits.1]
      exact hunmarked hdigits.1 (AllDigits.isUnmarked hdigits.2)

/-! ## The place of the imaginary part -/

/-- The last sign that is not the sign of an exponent is found. -/
theorem lastSign?_spec (previous : Char) (cs : List Char) :
    match lastSign? previous cs with
    | none => (previous :: cs).IsChain Continues
    | some i => IsLastBreak Continues (previous :: cs.take i) (cs.drop i) := by
  induction cs generalizing previous with
  | nil => exact .singleton previous
  | cons c cs ih =>
    have hrest := ih c
    unfold lastSign?
    cases hlast : lastSign? c cs with
    | some i =>
      rw [hlast] at hrest
      refine ⟨hrest.chain, .inr ?_⟩
      have hbreaks := hrest.breaks.resolve_left (List.cons_ne_nil _ _)
      rwa [List.take_succ_cons, List.drop_succ_cons, List.getLast?_cons_cons]
    | none =>
      rw [hlast] at hrest
      by_cases hbreak : (c = '+' ∨ c = '-') ∧ previous ≠ 'e' ∧ previous ≠ 'E'
      · simp only [if_pos hbreak]
        exact ⟨hrest, .inr ⟨previous, rfl, c, rfl, fun hcontinues =>
          absurd (hcontinues hbreak.1) (not_or.mpr hbreak.2)⟩⟩
      · simp only [if_neg hbreak]
        refine List.isChain_cons_cons.mpr ⟨fun hsign => ?_, hrest⟩
        by_contra hnot
        exact hbreak ⟨hsign, not_or.mp hnot⟩

/-- The parts of a literal meet at the last sign that is not the sign of an exponent. -/
theorem splitParts_spec (cs : List Char) :
    (splitParts cs).1 ++ (splitParts cs).2 = cs ∧
      IsLastBreak Continues (splitParts cs).1 (splitParts cs).2 := by
  cases cs with
  | nil => exact ⟨rfl, .nil, .inl rfl⟩
  | cons c cs =>
    have hspec := lastSign?_spec c cs
    simp only [splitParts]
    cases hlast : lastSign? c cs with
    | none =>
      rw [hlast] at hspec
      exact ⟨rfl, hspec, .inl rfl⟩
    | some i =>
      rw [hlast] at hspec
      exact ⟨congrArg (c :: ·) (List.take_append_drop i cs), hspec⟩

/-- A literal without its `j` is split at any last break. -/
theorem splitParts_eq {front back : List Char} (h : IsLastBreak Continues front back) :
    splitParts (front ++ back) = (front, back) := by
  obtain ⟨happend, hspec⟩ := splitParts_spec (front ++ back)
  obtain ⟨hfront, hback⟩ := hspec.unique h happend
  exact Prod.ext hfront hback

/-! ## The place in bytes -/

/-- Whether a byte can stand after another one in one float. -/
def ContinuesByte (p b : UInt8) : Prop :=
  b = 43 ∨ b = 45 → p = 101 ∨ p = 69

/-- The last place up to `i`, from which on no break was found, at which a byte does not continue the
byte in front of it. -/
def lastBreak? (bytes : List UInt8) : (i : Nat) → Option Nat
  | 0 => none
  | i + 1 =>
    if (bytes[i + 1]? = some 43 ∨ bytes[i + 1]? = some 45) ∧
        ¬(bytes[i]? = some 101 ∨ bytes[i]? = some 69) then some (i + 1)
    else lastBreak? bytes i

/-- A scan of the bytes from the end finds the last break. -/
theorem lastBreak?_spec (bytes : List UInt8) (i : Nat) (hi : i = 0 ∨ i < bytes.length)
    (hchain : (bytes.drop i).IsChain ContinuesByte) :
    match lastBreak? bytes i with
    | none => IsLastBreak ContinuesByte [] bytes
    | some k => k ≤ bytes.length ∧ IsLastBreak ContinuesByte (bytes.take k) (bytes.drop k) := by
  induction i with
  | zero => exact ⟨hchain, .inl rfl⟩
  | succ i ih =>
    have hi : i + 1 < bytes.length := hi.resolve_left (Nat.succ_ne_zero i)
    have hbyte : bytes[i + 1]? = some bytes[i + 1] := List.getElem?_eq_getElem hi
    have hprevious : bytes[i]? = some bytes[i] := List.getElem?_eq_getElem (by omega)
    have hhead : (bytes.drop (i + 1)).head? = some bytes[i + 1] := by
      rw [List.head?_drop, hbyte]
    unfold lastBreak?
    rw [hbyte, hprevious]
    simp only [Option.some_inj]
    by_cases hbreak : (bytes[i + 1] = 43 ∨ bytes[i + 1] = 45) ∧ ¬(bytes[i] = 101 ∨ bytes[i] = 69)
    · simp only [if_pos hbreak]
      refine ⟨hi.le, hchain, .inr ⟨bytes[i], ?_, bytes[i + 1], hhead, fun hcontinues =>
        hbreak.2 (hcontinues hbreak.1)⟩⟩
      rw [List.getLast?_take]
      simp [hprevious]
    · simp only [if_neg hbreak]
      refine ih (.inr (by omega)) ?_
      rw [List.drop_eq_getElem_cons (by omega)]
      refine List.isChain_cons.mpr ⟨?_, hchain⟩
      rw [hhead]
      rintro b ⟨⟩ hsign
      by_contra hnot
      exact hbreak ⟨hsign, hnot⟩

/-- The bytes behind the first one of a character are not ASCII. -/
theorem le_of_mem_digits {k v : Nat} {b : UInt8} (h : b ∈ CodePoint.digits k v) : 128 ≤ b.toNat := by
  induction k with
  | zero => cases h
  | succ k ih =>
    rcases List.mem_cons.mp h with rfl | h
    · rw [UInt8.toNat_ofNat']
      omega
    · exact ih h

variable {c d : Char}

/-- An ASCII character is one byte. -/
theorem utf8EncodeChar_ascii (hd : d.val.toNat < 128) :
    String.utf8EncodeChar d = [UInt8.ofNat d.val.toNat] := by
  have hfollowers : CodePoint.followers d.val.toNat = 0 := if_pos (by omega)
  have hlead : CodePoint.lead d.val.toNat = d.val.toNat := by
    rw [CodePoint.lead, CodePoint.mark, if_pos (by omega), hfollowers, pow_zero, Nat.div_one,
      Nat.zero_add]
  rw [CodePoint.utf8EncodeChar_eq, hfollowers, hlead, CodePoint.digits]

/-- The byte of an ASCII character is in no other one. -/
theorem mem_utf8EncodeChar_iff (hd : d.val.toNat < 128) :
    UInt8.ofNat d.val.toNat ∈ String.utf8EncodeChar c ↔ c = d := by
  constructor
  · intro h
    have hbyte : (UInt8.ofNat d.val.toNat).toNat = d.val.toNat :=
      UInt8.toNat_ofNat_of_lt' (hd.trans (by decide))
    rw [CodePoint.utf8EncodeChar_eq] at h
    rcases List.mem_cons.mp h with hfirst | hrest
    · have hlead := congrArg UInt8.toNat hfirst
      rw [hbyte, UInt8.toNat_ofNat_of_lt' (CodePoint.lead_lt_size (CodePoint.lt_of_char c))] at hlead
      have hc : c.val.toNat = d.val.toNat := by
        rw [hlead] at hd ⊢
        unfold CodePoint.lead CodePoint.mark CodePoint.followers at hd ⊢
        split_ifs at hd ⊢ <;> omega
      exact Char.ext (UInt32.toNat_inj.mp hc)
    · have hhigh := le_of_mem_digits hrest
      omega
  · rintro rfl
    rw [utf8EncodeChar_ascii hd]
    exact List.mem_singleton_self _

/-- The first byte tells an ASCII character. -/
theorem head?_utf8EncodeChar_iff (hd : d.val.toNat < 128) :
    (String.utf8EncodeChar c).head? = some (UInt8.ofNat d.val.toNat) ↔ c = d := by
  refine ⟨fun h => (mem_utf8EncodeChar_iff hd).mp (List.mem_of_mem_head? h), ?_⟩
  rintro rfl
  rw [utf8EncodeChar_ascii hd]
  rfl

/-- The last byte tells an ASCII character. -/
theorem getLast?_utf8EncodeChar_iff (hd : d.val.toNat < 128) :
    (String.utf8EncodeChar c).getLast? = some (UInt8.ofNat d.val.toNat) ↔ c = d := by
  refine ⟨fun h => (mem_utf8EncodeChar_iff hd).mp (List.mem_of_getLast? h), ?_⟩
  rintro rfl
  rw [utf8EncodeChar_ascii hd]
  rfl

/-- Every character has a byte. -/
theorem utf8EncodeChar_ne_nil (c : Char) : String.utf8EncodeChar c ≠ [] := by
  rw [CodePoint.utf8EncodeChar_eq]
  exact List.cons_ne_nil _ _

/-- Characters continue each other as their bytes do. -/
theorem continues_iff (p c : Char) :
    Continues p c ↔ ∀ x ∈ (String.utf8EncodeChar p).getLast?, ∀ y ∈ (String.utf8EncodeChar c).head?,
      ContinuesByte x y := by
  obtain ⟨x, hx⟩ : ∃ x, (String.utf8EncodeChar p).getLast? = some x :=
    ⟨_, List.getLast?_eq_some_getLast (utf8EncodeChar_ne_nil p)⟩
  obtain ⟨y, hy⟩ : ∃ y, (String.utf8EncodeChar c).head? = some y :=
    ⟨_, List.head?_eq_some_head (utf8EncodeChar_ne_nil c)⟩
  have hlast {d : Char} (hd : d.val.toNat < 128) : x = UInt8.ofNat d.val.toNat ↔ p = d := by
    rw [← getLast?_utf8EncodeChar_iff hd, hx, Option.some_inj]
  have hfirst {d : Char} (hd : d.val.toNat < 128) : y = UInt8.ofNat d.val.toNat ↔ c = d := by
    rw [← head?_utf8EncodeChar_iff hd, hy, Option.some_inj]
  have hplus : y = 43 ↔ c = '+' := hfirst (d := '+') (by decide)
  have hminus : y = 45 ↔ c = '-' := hfirst (d := '-') (by decide)
  have hsmall : x = 101 ↔ p = 'e' := hlast (d := 'e') (by decide)
  have hcapital : x = 69 ↔ p = 'E' := hlast (d := 'E') (by decide)
  rw [hx, hy]
  simp only [Option.mem_def, Option.some_inj, forall_eq', ContinuesByte, Continues, hplus, hminus,
    hsmall, hcapital]

/-- No byte within a character is a sign. -/
theorem isChain_utf8EncodeChar (c : Char) : (String.utf8EncodeChar c).IsChain ContinuesByte := by
  rw [CodePoint.utf8EncodeChar_eq]
  refine (List.pairwise_cons.mpr ⟨?_, ?_⟩).isChain
  · rintro b hb (rfl | rfl) <;> exact absurd (le_of_mem_digits hb) (by decide)
  · refine List.pairwise_of_forall_mem_list fun p _ b hb => ?_
    rintro (rfl | rfl) <;> exact absurd (le_of_mem_digits hb) (by decide)

/-- A last break of characters is one of their bytes. -/
theorem isLastBreak_utf8 {front back : List Char} (h : IsLastBreak Continues front back) :
    IsLastBreak ContinuesByte (front.flatMap String.utf8EncodeChar)
      (back.flatMap String.utf8EncodeChar) := by
  constructor
  · have hnil : [] ∉ back.map String.utf8EncodeChar := by
      rw [List.mem_map]
      rintro ⟨c, -, hc⟩
      exact utf8EncodeChar_ne_nil c hc
    rw [List.flatMap_def, List.isChain_flatten hnil, List.isChain_map]
    refine ⟨?_, h.chain.imp fun p c hcontinues => (continues_iff p c).mp hcontinues⟩
    rintro bytes hbytes
    obtain ⟨c, -, rfl⟩ := List.mem_map.mp hbytes
    exact isChain_utf8EncodeChar c
  · rcases h.breaks with rfl | ⟨p, hp, c, hc, hbreak⟩
    · exact .inl rfl
    · right
      rw [continues_iff] at hbreak
      push Not at hbreak
      obtain ⟨x, hx, y, hy, hbreak⟩ := hbreak
      obtain ⟨front, rfl⟩ := List.getLast?_eq_some_iff.mp hp
      obtain ⟨back, rfl⟩ := List.head?_eq_some_iff.mp hc
      refine ⟨x, ?_, y, ?_, hbreak⟩
      · rw [List.flatMap_append, List.flatMap_singleton,
          List.getLast?_append_of_ne_nil _ (utf8EncodeChar_ne_nil p)]
        exact hx
      · rw [List.flatMap_cons, List.head?_append_of_ne_nil _ (utf8EncodeChar_ne_nil c)]
        exact hy

/-- The place in the bytes of a text at which its imaginary part starts. -/
def breakAt? (text : String) : Option Nat :=
  lastBreak? (utf8 text) ((utf8 text).length - 1)

/-- The bytes of a text can be split where its characters are. -/
theorem breakAt?_spec (text : String) :
    match breakAt? text with
    | none => splitParts text.toList = ([], text.toList)
    | some i => ∃ re im : String, text = re ++ im ∧ i = (utf8 re).length ∧
        splitParts text.toList = (re.toList, im.toList) := by
  obtain ⟨happend, hspec⟩ := splitParts_spec text.toList
  generalize splitParts text.toList = parts at happend hspec ⊢
  obtain ⟨re, im⟩ := parts
  have hbytes : utf8 text = re.flatMap String.utf8EncodeChar ++ im.flatMap String.utf8EncodeChar := by
    rw [utf8_eq, ← happend, List.flatMap_append]
  have hlast := lastBreak?_spec (utf8 text) ((utf8 text).length - 1) (by omega) (by
    have hshort : ((utf8 text).drop ((utf8 text).length - 1)).length ≤ 1 := by
      rw [List.length_drop]
      omega
    match hdrop : (utf8 text).drop ((utf8 text).length - 1) with
    | [] => exact .nil
    | [b] => exact .singleton b
    | _ :: _ :: _ => simp [hdrop] at hshort)
  unfold breakAt?
  cases hfound : lastBreak? (utf8 text) ((utf8 text).length - 1) with
  | none =>
    rw [hfound] at hlast
    obtain ⟨hnil, -⟩ := hlast.unique (isLastBreak_utf8 hspec) hbytes
    have hre : re = [] := by
      cases re with
      | nil => rfl
      | cons c re =>
        rw [List.flatMap_cons] at hnil
        exact absurd (List.append_eq_nil_iff.mp hnil.symm).1 (utf8EncodeChar_ne_nil c)
    rw [← happend, hre]
    rfl
  | some i =>
    rw [hfound] at hlast
    obtain ⟨hi, hbreak⟩ := hlast
    rw [← List.take_append_drop i (utf8 text)] at hbytes
    obtain ⟨htake, -⟩ := hbreak.unique (isLastBreak_utf8 hspec) hbytes
    refine ⟨String.ofList re, String.ofList im, ?_, ?_, ?_⟩
    · rw [← String.ofList_append, happend, String.ofList_toList]
    · rw [utf8_eq, String.toList_ofList, ← htake, List.length_take, min_eq_left hi]
    · rw [String.toList_ofList, String.toList_ofList]

/-! ## Literals -/

/-- Whether `cs` is a complex literal with the given parts: the text of a float with a digit in it and a
`j`, or such text with a sign in front, after the text of another float. -/
structure Decomposes (cs re im : List Char) : Prop where
  text : cs = re ++ im ++ ['j'] ∨ cs = re ++ im ++ ['J']
  imaginary : IsFloatText im
  digit : ∃ c ∈ im, '0' ≤ c ∧ c ≤ '9'
  real : re = [] ∨ IsFloatText re ∧ (im.head? = some '+' ∨ im.head? = some '-')

/-- What the parts of a complex literal stand for. -/
def HasParts (re im : List Char) (z : Complex) : Prop :=
  Binary64.read? im = some z.im ∧ (re = [] ∧ z.re = 0.0 ∨ re ≠ [] ∧ Binary64.read? re = some z.re)

variable {cs re im : List Char} {z : Complex}

/-- The parts of a complex literal meet at a last break. -/
theorem Decomposes.isLastBreak (h : Decomposes cs re im) : IsLastBreak Continues re im := by
  refine ⟨isChain_of_isFloatText h.imaginary, h.real.imp_right ?_⟩
  rintro ⟨hre, hsign⟩
  obtain ⟨p, hp, hlast⟩ := last_of_isFloatText hre
  rcases hsign with hsign | hsign
  · exact ⟨p, hp, '+', hsign, fun hcontinues =>
      absurd (hcontinues (.inl rfl)) (not_or.mpr hlast)⟩
  · exact ⟨p, hp, '-', hsign, fun hcontinues =>
      absurd (hcontinues (.inr rfl)) (not_or.mpr hlast)⟩

/-- A complex literal has one decomposition. -/
theorem Decomposes.unique {re' im' : List Char} (h : Decomposes cs re im)
    (h' : Decomposes cs re' im') : re = re' ∧ im = im' := by
  refine h.isLastBreak.unique h'.isLastBreak ?_
  have hbody {front back : List Char} (hcs : cs = front ++ back ++ ['j'] ∨ cs = front ++ back ++ ['J']) :
      cs.dropLast = front ++ back := by
    rcases hcs with rfl | rfl <;> exact List.dropLast_concat
  rw [← hbody h.text, ← hbody h'.text]

/-- Parts are read as the floats they spell. -/
theorem ofParts?_eq_some_iff : ofParts? re im = some z ↔
    (∃ c ∈ im, '0' ≤ c ∧ c ≤ '9') ∧ HasParts re im z := by
  have hdigit : im.any Char.isDigit = true ↔ ∃ c ∈ im, '0' ≤ c ∧ c ≤ '9' := by
    simp only [List.any_eq_true, isDigit_iff]
  have hreal (x : Float) : (if re.isEmpty then some 0.0 else Binary64.read? re) = some x ↔
      re = [] ∧ x = 0.0 ∨ re ≠ [] ∧ Binary64.read? re = some x := by
    cases re with
    | nil => simp [eq_comm]
    | cons => simp
  rw [ofParts?, Option.ite_none_right_eq_some, hdigit]
  refine and_congr_right fun _ => ?_
  simp only [Option.bind_eq_some_iff, Option.map_eq_some_iff, hreal]
  constructor
  · rintro ⟨y, hy, x, hx, rfl⟩
    exact ⟨hy, hx⟩
  · rintro ⟨hy, hx⟩
    exact ⟨z.im, hy, z.re, hx, rfl⟩

/-- The parts of a complex literal are those that are read. -/
theorem Decomposes.read?_eq (h : Decomposes cs re im) : read? cs = ofParts? re im := by
  have hsplit := splitParts_eq h.isLastBreak
  rcases h.text with rfl | rfl <;> simp [read?, hsplit]

/-- What is read as a complex number has parts that meet at a last break. -/
theorem exists_parts_of_read? (h : read? cs = some z) :
    ∃ re im, (cs = re ++ im ++ ['j'] ∨ cs = re ++ im ++ ['J']) ∧ IsLastBreak Continues re im ∧
      ofParts? re im = some z := by
  unfold read? at h
  split at h
  · next last hlast =>
    obtain ⟨body, rfl⟩ := List.getLast?_eq_some_iff.mp hlast
    rw [List.dropLast_concat] at h
    obtain ⟨happend, hspec⟩ := splitParts_spec body
    obtain ⟨hj, hparts⟩ := Option.ite_none_right_eq_some.mp h
    refine ⟨_, _, ?_, hspec, hparts⟩
    rw [happend]
    exact hj.imp (congrArg fun c => body ++ [c]) (congrArg fun c => body ++ [c])
  · cases h

/-- A last break between two floats is a sign. -/
theorem head_of_isLastBreak (h : IsLastBreak Continues re im) (hre : re ≠ []) :
    im.head? = some '+' ∨ im.head? = some '-' := by
  obtain ⟨p, -, c, hc, hbreak⟩ := h.breaks.resolve_left hre
  have hsign : c = '+' ∨ c = '-' := by
    by_contra hnot
    exact hbreak fun hsign => absurd hsign hnot
  rcases hsign with rfl | rfl
  · exact .inl hc
  · exact .inr hc

/-- A complex number is read from its literals and from nothing else. -/
theorem read?_eq_some_iff :
    read? cs = some z ↔ ∃ re im, Decomposes cs re im ∧ HasParts re im z := by
  constructor
  · intro h
    obtain ⟨re, im, htext, hbreak, hparts⟩ := exists_parts_of_read? h
    obtain ⟨hdigit, hhas⟩ := ofParts?_eq_some_iff.mp hparts
    refine ⟨re, im, ⟨htext, exists_read?_iff.mp ⟨_, hhas.1⟩, hdigit, ?_⟩, hhas⟩
    rcases hhas.2 with ⟨hnil, -⟩ | ⟨hne, hre⟩
    · exact .inl hnil
    · exact .inr ⟨exists_read?_iff.mp ⟨_, hre⟩, head_of_isLastBreak hbreak hne⟩
  · rintro ⟨re, im, h, hhas⟩
    rw [h.read?_eq, ofParts?_eq_some_iff]
    exact ⟨h.digit, hhas⟩

/-- The parts of a complex literal stand for floats. -/
theorem Decomposes.exists_hasParts (h : Decomposes cs re im) : ∃ z, HasParts re im z := by
  obtain ⟨y, hy⟩ := exists_read?_iff.mpr h.imaginary
  by_cases hre : re = []
  · exact ⟨⟨0.0, y⟩, hy, .inl ⟨hre, rfl⟩⟩
  · obtain ⟨x, hx⟩ := exists_read?_iff.mpr (h.real.resolve_left hre).1
    exact ⟨⟨x, y⟩, hy, .inr ⟨hre, hx⟩⟩

end Complex

/-- Text is read as a float just if it follows the grammar of floats. Text is read as a complex number
just if it is such text with a digit in it and a `j`, where nothing stands for a real part of zero, or
two such texts and a `j`, the second with a sign in front and a digit in it; and what is read are the
floats of the parts. No text is of this form in two ways. And where the bytes of a text are scanned for
the place at which the parts meet, the place lies between two characters, and the parts are just those
that are read. -/
theorem complex_literals_split :
    (∀ cs, (∃ x, Binary64.read? cs = some x) ↔ Binary64.IsFloatText cs) ∧
    (∀ (text : String), (∃ z, Complex.read? text.toList = some z) ↔
      ∃ re im, Complex.Decomposes text.toList re im) ∧
    (∀ (text : String) (re im : List Char), Complex.Decomposes text.toList re im →
      ∃ z, Complex.read? text.toList = some z ∧ Complex.HasParts re im z) ∧
    (∀ (text : String) (re im re' im' : List Char), Complex.Decomposes text.toList re im →
      Complex.Decomposes text.toList re' im' → re = re' ∧ im = im') ∧
    ∀ body : String,
      match Complex.breakAt? body with
      | none => Complex.splitParts body.toList = ([], body.toList)
      | some i => ∃ re im : String, body = re ++ im ∧ i = (utf8 re).length ∧
          Complex.splitParts body.toList = (re.toList, im.toList) := by
  refine ⟨fun cs => Binary64.exists_read?_iff, fun text => ?_, fun text re im h => ?_,
    fun text re im re' im' => Complex.Decomposes.unique, Complex.breakAt?_spec⟩
  · constructor
    · rintro ⟨z, hz⟩
      obtain ⟨re, im, h, -⟩ := Complex.read?_eq_some_iff.mp hz
      exact ⟨re, im, h⟩
    · rintro ⟨re, im, h⟩
      obtain ⟨z, hz⟩ := h.exists_hasParts
      exact ⟨z, Complex.read?_eq_some_iff.mpr ⟨re, im, h, hz⟩⟩
  · obtain ⟨z, hz⟩ := h.exists_hasParts
    exact ⟨z, Complex.read?_eq_some_iff.mpr ⟨re, im, h, hz⟩, hz⟩

/-- The signs of two exponents are passed over, and the parts meet at the sign between them. -/
theorem complex_literals_split_exponents :
    ∃ z, Complex.read? "-1e+2-.5E-3J".toList = some z ∧
      Complex.HasParts "-1e+2".toList "-.5E-3".toList z := by
  refine complex_literals_split.2.2.1 "-1e+2-.5E-3J" _ _ ⟨.inr rfl, ?_, ?_, .inr ⟨?_, .inr rfl⟩⟩
  · exact complex_literals_split.1 _ |>.mp ⟨_, rfl⟩
  · exact ⟨'5', by decide, by decide⟩
  · exact complex_literals_split.1 _ |>.mp ⟨_, rfl⟩

end FlatLisp
