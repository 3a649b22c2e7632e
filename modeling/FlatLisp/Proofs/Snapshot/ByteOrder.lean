import Mathlib.Data.String.Basic

/-!
# The order of texts by their bytes

Texts are compared character by character. The bytes of UTF-8 give the same order: the first byte of a
character tells how many more there are, a larger character never has fewer, and the other bytes are
digits of one length, the most significant first.
-/

namespace FlatLisp

/-- The bytes of a text in UTF-8. -/
def utf8 (text : String) : List UInt8 :=
  text.toByteArray.data.toList

/-- The bytes of a text are those of its characters. -/
theorem utf8_eq (text : String) : utf8 text = text.toList.flatMap String.utf8EncodeChar := by
  obtain ⟨characters, rfl⟩ : ∃ characters, text = String.ofList characters :=
    ⟨text.toList, String.ofList_toList.symm⟩
  unfold utf8
  rw [String.toByteArray_ofList, String.toList_ofList, List.utf8Encode, List.data_toByteArray]

namespace CodePoint

/-- How many bytes follow the first one of a code point. -/
def followers (v : Nat) : Nat :=
  if v ≤ 127 then 0 else if v ≤ 2047 then 1 else if v ≤ 65535 then 2 else 3

/-- What the first byte is above the digit that it holds. -/
def mark (v : Nat) : Nat :=
  if v ≤ 127 then 0 else if v ≤ 2047 then 192 else if v ≤ 65535 then 224 else 240

/-- The first byte of a code point. -/
def lead (v : Nat) : Nat :=
  mark v + v / 64 ^ followers v

/-- The last `k` digits of a code point to the base 64, each as a byte. -/
def digits : (k : Nat) → (v : Nat) → List UInt8
  | 0, _ => []
  | k + 1, v => UInt8.ofNat (v / 64 ^ k % 64 + 128) :: digits k v

/-- Code points have at most 21 bits. -/
theorem lt_of_char (c : Char) : c.val.toNat < 0x110000 := by
  rcases c.valid with hlow | hhigh
  · exact Nat.lt_trans hlow (by decide)
  · exact hhigh.2

/-- A character is written as a first byte and digits. -/
theorem utf8EncodeChar_eq (c : Char) :
    String.utf8EncodeChar c =
      UInt8.ofNat (lead c.val.toNat) :: digits (followers c.val.toNat) c.val.toNat := by
  have hbound := lt_of_char c
  simp only [String.utf8EncodeChar, lead, mark, followers]
  generalize c.val.toNat = v at hbound ⊢
  -- The digit in the first byte is not cut off, since a larger one would have had more followers.
  split_ifs with hone htwo hthree
  · simp [digits]
  · have hdigit : v / 64 % 32 = v / 64 := Nat.mod_eq_of_lt (by omega)
    simp [digits, hdigit, Nat.add_comm]
  · have hdigit : v / 4096 % 16 = v / 4096 := Nat.mod_eq_of_lt (by omega)
    simp [digits, hdigit, Nat.add_comm]
  · have hdigit : v / 262144 % 8 = v / 262144 := Nat.mod_eq_of_lt (by omega)
    simp [digits, hdigit, Nat.add_comm]

/-- Digits of one length are ordered as their numbers, whatever follows. -/
theorem digits_lt (k : Nat) {m n : Nat} (h : m % 64 ^ k < n % 64 ^ k) (x y : List UInt8) :
    digits k m ++ x < digits k n ++ y := by
  induction k with
  | zero =>
    rw [pow_zero, Nat.mod_one, Nat.mod_one] at h
    exact absurd h (Nat.lt_irrefl 0)
  | succ k ih =>
    rw [pow_succ, Nat.mod_mul, Nat.mod_mul] at h
    simp only [digits, List.cons_append, List.cons_lt_cons_iff, UInt8.lt_iff_toNat_lt,
      ← UInt8.toNat_inj, UInt8.toNat_ofNat']
    have hm := Nat.mod_lt (m / 64 ^ k) (show 64 > 0 by decide)
    have hn := Nat.mod_lt (n / 64 ^ k) (show 64 > 0 by decide)
    rcases Nat.lt_trichotomy (m / 64 ^ k % 64) (n / 64 ^ k % 64) with hlt | heq | hgt
    · left
      omega
    · right
      rw [heq] at h
      exact ⟨by rw [heq], ih (by omega)⟩
    · have hstep : 64 ^ k * (n / 64 ^ k % 64 + 1) ≤ 64 ^ k * (m / 64 ^ k % 64) :=
        Nat.mul_le_mul_left _ hgt
      have hrest := Nat.mod_lt n (Nat.pow_pos (n := k) (show 0 < 64 by decide))
      rw [Nat.mul_add, Nat.mul_one] at hstep
      omega

/-- The first byte of a larger code point is larger, or the digits are as many and larger. -/
theorem lead_lt {m n : Nat} (h : m < n) (hn : n < 0x110000) :
    lead m < lead n ∨
      (lead m = lead n ∧ followers m = followers n ∧
        m % 64 ^ followers m < n % 64 ^ followers n) := by
  unfold lead mark followers
  split_ifs <;> omega

/-- The first byte is a byte. -/
theorem lead_lt_size {v : Nat} (h : v < 0x110000) : lead v < 256 := by
  unfold lead mark followers
  split_ifs <;> omega

end CodePoint

open CodePoint

/-- Bytes of characters are ordered as the characters, whatever follows. -/
theorem utf8EncodeChar_lt {c d : Char} (h : c < d) (x y : List UInt8) :
    String.utf8EncodeChar c ++ x < String.utf8EncodeChar d ++ y := by
  have hval : c.val.toNat < d.val.toNat := h
  have hc := lead_lt_size (lt_of_char c)
  have hd := lead_lt_size (lt_of_char d)
  rw [utf8EncodeChar_eq, utf8EncodeChar_eq, List.cons_append, List.cons_append,
    List.cons_lt_cons_iff, UInt8.lt_iff_toNat_lt, ← UInt8.toNat_inj,
    UInt8.toNat_ofNat_of_lt' hc, UInt8.toNat_ofNat_of_lt' hd]
  rcases lead_lt hval (lt_of_char d) with hlead | ⟨hlead, hfollowers, hdigits⟩
  · exact .inl hlead
  · rw [hfollowers] at hdigits ⊢
    exact .inr ⟨hlead, digits_lt _ hdigits x y⟩

/-- Bytes of texts are ordered as the texts. -/
theorem flatMap_utf8EncodeChar_lt {a b : List Char} (h : a < b) :
    a.flatMap String.utf8EncodeChar < b.flatMap String.utf8EncodeChar := by
  induction a generalizing b with
  | nil =>
    cases b with
    | nil => exact absurd h (List.lt_irrefl [])
    | cons d b =>
      rw [List.flatMap_cons, utf8EncodeChar_eq]
      exact List.nil_lt_cons _ _
  | cons c a ih =>
    cases b with
    | nil => exact absurd h (List.not_lt_nil _)
    | cons d b =>
      rw [List.flatMap_cons, List.flatMap_cons]
      rcases List.cons_lt_cons_iff.mp h with hlt | ⟨rfl, hlt⟩
      · exact utf8EncodeChar_lt hlt _ _
      · exact List.append_left_lt (ih hlt)

/-- The order of texts is that of their bytes. -/
theorem utf8_lt_iff {a b : String} : utf8 a < utf8 b ↔ a < b := by
  have hlt {a b : String} (h : a < b) : utf8 a < utf8 b := by
    rw [utf8_eq, utf8_eq]
    exact flatMap_utf8EncodeChar_lt (String.lt_iff_toList_lt.mp h)
  refine ⟨fun h => ?_, hlt⟩
  rcases lt_trichotomy a b with hab | rfl | hba
  · exact hab
  · exact absurd h (List.lt_irrefl _)
  · exact absurd h (List.lt_asymm (hlt hba))

end FlatLisp
