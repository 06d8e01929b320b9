import Mathlib.Data.Nat.Basic
import Quorum.Text.Utf8

/-!
# Text is read back from UTF-8

The length of a character's code decides how many bytes it takes, and the first byte shows how many
there are. The reader takes the same number of bytes and refuses longer forms than needed, which
are never written.

## Main results

* `Utf8.next?_encodeChar` — the bytes of a character are read as the character
* `Utf8.decode?_encode` — the bytes of a text are read as its characters
-/

namespace Quorum

namespace Utf8

theorem ofNat_lt_iff {n : ℕ} (short : n < 256) (b : UInt8) : UInt8.ofNat n < b ↔ n < b.toNat := by
  rw [UInt8.lt_iff_toNat_lt, UInt8.toNat_ofNat_of_lt' (by simpa using short)]

theorem toNat_ofNat {n : ℕ} (short : n < 256) : (UInt8.ofNat n).toNat = n :=
  UInt8.toNat_ofNat_of_lt' (by simpa using short)

/-- Six bits behind the mark of a continuation. -/
theorem isTail_ofNat (n : ℕ) : isTail (UInt8.ofNat (0x80 + n % 64)) = true := by
  have short : 0x80 + n % 64 < 256 := by omega
  simp only [isTail, UInt8.le_iff_toNat_le, UInt8.lt_iff_toNat_lt, toNat_ofNat short]
  simp
  omega

theorem toNat_tail (n : ℕ) : (UInt8.ofNat (0x80 + n % 64)).toNat - 0x80 = n % 64 := by
  rw [toNat_ofNat (by omega)]
  omega

theorem charAt?_toNat {least n : ℕ} {c : Char} (value : n = c.toNat) (long : least ≤ c.toNat)
    (rest : Bytes) : charAt? least n rest = some (c, rest) := by
  rw [charAt?, value, if_pos ⟨long, c.valid⟩, Char.ofNat_toNat]

theorem next?_encodeChar (c : Char) (rest : Bytes) :
    next? (encodeChar c ++ rest) = some (c, rest) := by
  have bound : c.toNat < 0x110000 := by
    rcases c.valid with low | ⟨-, high⟩
    · exact Nat.lt_trans low (by decide)
    · exact high
  simp only [encodeChar]
  split
  · next short =>
    have first : c.toNat < 256 := by omega
    simp [next?, ofNat_lt_iff first, toNat_ofNat first, short]
  split
  · next long short =>
    have first : 0xC0 + c.toNat / 64 < 256 := by omega
    simp only [List.cons_append, List.nil_append, next?, ofNat_lt_iff first, toNat_ofNat first,
      isTail_ofNat, toNat_tail, if_true]
    rw [if_neg (by simp; omega), if_neg (by simp), if_pos (by simp; omega)]
    exact charAt?_toNat (by omega) (by omega) rest
  split
  · next long short =>
    have first : 0xE0 + c.toNat / 4096 < 256 := by omega
    simp only [List.cons_append, List.nil_append, next?, ofNat_lt_iff first, toNat_ofNat first,
      isTail_ofNat, toNat_tail, Bool.and_self, if_true]
    rw [if_neg (by simp; omega), if_neg (by simp; omega), if_neg (by simp), if_pos (by simp; omega)]
    exact charAt?_toNat (by omega) (by omega) rest
  · next long =>
    have first : 0xF0 + c.toNat / 262144 < 256 := by omega
    simp only [List.cons_append, List.nil_append, next?, ofNat_lt_iff first, toNat_ofNat first,
      isTail_ofNat, toNat_tail, Bool.and_self, if_true]
    rw [if_neg (by simp; omega), if_neg (by simp; omega), if_neg (by simp; omega), if_neg (by simp),
      if_pos (by simp; omega)]
    exact charAt?_toNat (by omega) (by omega) rest

theorem decode?_cons {b rest : Bytes} {c : Char} (first : next? b = some (c, rest)) :
    decode? b = (decode? rest).map (c :: ·) := by
  rw [decode?]
  split
  · next empty =>
    rw [List.isEmpty_iff.mp empty] at first
    cases first
  · split
    · next none =>
      rw [first] at none
      cases none
    · next found =>
      rw [first] at found
      cases found
      rfl

/-- The bytes of a text are read as its characters. -/
theorem decode?_encode (s : String) : decode? (encode s) = some s.toList := by
  rw [encode]
  generalize s.toList = chars
  induction chars with
  | nil =>
    rw [decode?]
    rfl
  | cons c chars ih =>
    rw [encodeChars, List.flatMap_cons, decode?_cons (next?_encodeChar c _), ← encodeChars, ih]
    rfl

/-- Every character takes a byte or more. -/
theorem length_le_length_encode (s : String) : s.toList.length ≤ (encode s).length := by
  rw [encode]
  generalize s.toList = chars
  induction chars with
  | nil => exact Nat.le_refl 0
  | cons c chars ih =>
    have some : 1 ≤ (encodeChar c).length := by
      simp only [encodeChar]
      repeat' split
      all_goals exact Nat.le_add_left 1 _
    rw [encodeChars, List.flatMap_cons, List.length_append, List.length_cons, ← encodeChars]
    omega

end Utf8

end Quorum
