import Mathlib.Algebra.Group.Nat.Defs
import Quorum.Bytes

/-!
# Numbers as byte strings

A number that is written in a fixed width and read back is reduced modulo the width, and the value
of a byte string written in its own width gives the byte string back.

## Main results

* `Bytes.toNat_append` — the value of a concatenation
* `Bytes.toNat_ofNat`, `Bytes.ofNat_toNat` — writing in a fixed width and reading are inverse
-/

namespace Quorum

namespace Bytes

theorem foldl_toNat (b : Bytes) (n : Nat) :
    b.foldl (fun n x => 256 * n + x.toNat) n = 256 ^ b.length * n + toNat b := by
  induction b generalizing n with
  | nil => simp [toNat]
  | cons x b ih =>
    simp only [toNat, List.foldl_cons, List.length_cons]
    rw [ih, ih (256 * 0 + x.toNat), Nat.pow_succ]
    simp only [Nat.mul_add, Nat.mul_zero, Nat.zero_add, Nat.mul_assoc, Nat.add_assoc]

/-- The value of a concatenation: the first part is shifted by the length of the second. -/
theorem toNat_append (a b : Bytes) : toNat (a ++ b) = 256 ^ b.length * toNat a + toNat b := by
  rw [toNat, List.foldl_append, foldl_toNat]
  rfl

theorem toNat_lt (b : Bytes) : toNat b < 256 ^ b.length := by
  induction b with
  | nil => simp [toNat]
  | cons x b ih =>
    have hx : x.toNat < 256 := x.toNat_lt
    have h : toNat (x :: b) = 256 ^ b.length * x.toNat + toNat b := by
      have := toNat_append [x] b
      simpa [toNat] using this
    rw [h, List.length_cons, Nat.pow_succ]
    calc 256 ^ b.length * x.toNat + toNat b
        < 256 ^ b.length * x.toNat + 256 ^ b.length := by omega
      _ = 256 ^ b.length * (x.toNat + 1) := by rw [Nat.mul_add, Nat.mul_one]
      _ ≤ 256 ^ b.length * 256 := Nat.mul_le_mul_left _ (by omega)

/-- Reading back what was written gives the number modulo the width. -/
theorem toNat_ofNat (width n : Nat) : toNat (ofNat width n) = n % 256 ^ width := by
  induction width generalizing n with
  | zero => simp [ofNat, toNat, Nat.mod_one]
  | succ w ih =>
    have h : toNat [UInt8.ofNat n] = n % 256 := by simp [toNat]
    rw [ofNat, toNat_append, ih, h, Nat.pow_succ, Nat.mul_comm (256 ^ w) 256,
      Nat.mod_mul]
    simp
    omega

/-- Numbers that fit in a width are told apart by their bytes. -/
theorem ofNat_inj {width m n : Nat} (m_lt : m < 256 ^ width) (n_lt : n < 256 ^ width)
    (same : ofNat width m = ofNat width n) : m = n := by
  have value := congrArg toNat same
  rwa [toNat_ofNat, toNat_ofNat, Nat.mod_eq_of_lt m_lt, Nat.mod_eq_of_lt n_lt] at value

/-- Writing the value of a byte string in its own width gives the byte string back. -/
theorem ofNat_toNat (b : Bytes) : ofNat b.length (toNat b) = b := by
  -- The last byte is written last, so the induction takes it off the end.
  induction h : b.length generalizing b with
  | zero => simp_all [ofNat]
  | succ n ih =>
    obtain ⟨a, x, rfl⟩ : ∃ a x, b = a ++ [x] := by
      rcases List.eq_nil_or_concat b with rfl | ⟨a, x, rfl⟩
      · simp at h
      · exact ⟨a, x, by simp⟩
    have hx : x.toNat < 256 := x.toNat_lt
    have ha : a.length = n := by simpa using h
    have hv : toNat (a ++ [x]) = 256 * toNat a + x.toNat := by
      rw [toNat_append]; simp [toNat]
    have hd : (256 * toNat a + x.toNat) / 256 = toNat a := by omega
    have hm : UInt8.ofNat (256 * toNat a + x.toNat) = x := by
      apply UInt8.toNat.inj
      simp only [UInt8.toNat_ofNat']
      omega
    rw [ofNat, hv, hd, hm, ih a ha]

theorem ofNat_toNat_of_length {width : Nat} {b : Bytes} (length : b.length = width) :
    ofNat width (toNat b) = b := by
  rw [← length, ofNat_toNat]

end Bytes

end Quorum
