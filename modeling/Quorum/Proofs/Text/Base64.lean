import Mathlib.Algebra.Group.Nat.Defs
import Mathlib.Data.List.Basic
import Quorum.Text.Base64

/-!
# Byte strings are read back from Base64

The text of a byte string is a run of data characters, four for every three bytes, and the padding
that fills up the last group.

## Main definitions

* `Base64.sextets` — the values of the data characters
* `Base64.padding` — the number of padding characters

## Main results

* `Base64.decode_encode` — a byte string is read back from its text
-/

namespace Quorum

namespace Base64

/-- The values of the data characters that a byte string is written with. -/
def sextets : Bytes → List ℕ
  | [] => []
  | [a] => [a.toNat / 4, a.toNat % 4 * 16]
  | [a, b] => [a.toNat / 4, a.toNat % 4 * 16 + b.toNat / 16, b.toNat % 16 * 4]
  | a :: b :: c :: r =>
    (a.toNat / 4) :: (a.toNat % 4 * 16 + b.toNat / 16) :: (b.toNat % 16 * 4 + c.toNat / 64) ::
      (c.toNat % 64) :: sextets r

/-- How many padding characters fill up the last group. -/
def padding (b : Bytes) : ℕ := (3 - b.length % 3) % 3

theorem padding_cons (a b c : UInt8) (r : Bytes) : padding (a :: b :: c :: r) = padding r := by
  simp only [padding, List.length_cons, Nat.add_assoc, Nat.reduceAdd, Nat.add_mod_right]

theorem encodeChars_eq (b : Bytes) :
    encodeChars b = (sextets b).map symbol ++ List.replicate (padding b) '=' := by
  induction b using encodeChars.induct with
  | case1 | case2 | case3 => rfl
  | case4 a b c r ih =>
    simp only [encodeChars, sextets, padding_cons, ih, List.map_cons, List.cons_append]

theorem sextets_lt (b : Bytes) : ∀ v ∈ sextets b, v < 64 := by
  induction b using encodeChars.induct with
  | case1 => exact List.forall_mem_nil _
  | case2 a =>
    have := a.toNat_lt
    simp only [sextets, List.forall_mem_cons]
    exact ⟨by omega, by omega, List.forall_mem_nil _⟩
  | case3 a b =>
    have := a.toNat_lt
    have := b.toNat_lt
    simp only [sextets, List.forall_mem_cons]
    exact ⟨by omega, by omega, by omega, List.forall_mem_nil _⟩
  | case4 a b c r ih =>
    have := a.toNat_lt
    have := b.toNat_lt
    have := c.toNat_lt
    simp only [sextets, List.forall_mem_cons]
    exact ⟨by omega, by omega, by omega, by omega, ih⟩

theorem length_sextets (b : Bytes) : ((sextets b).length + padding b) % 4 = 0 := by
  induction b using encodeChars.induct with
  | case1 => rfl
  | case2 a => simp [sextets, padding]
  | case3 a b => simp [sextets, padding]
  | case4 a b c r ih =>
    rw [padding_cons]
    simp only [sextets, List.length_cons]
    omega

/-- Joining drops the spare bits. -/
theorem join_sextets (b : Bytes) : join (sextets b) = b := by
  have byte (n : ℕ) (x : UInt8) (same : n = x.toNat) : UInt8.ofNat n = x := by
    rw [same, UInt8.ofNat_toNat]
  induction b using encodeChars.induct with
  | case1 => rfl
  | case2 a =>
    have := a.toNat_lt
    rw [sextets, join, byte _ a (by omega)]
  | case3 a b =>
    have := a.toNat_lt
    have := b.toNat_lt
    rw [sextets, join, byte _ a (by omega), byte _ b (by omega)]
  | case4 a b c r ih =>
    have := a.toNat_lt
    have := b.toNat_lt
    have := c.toNat_lt
    rw [sextets, join, ih, byte _ a (by omega), byte _ b (by omega), byte _ c (by omega)]

theorem value?_symbol {v : ℕ} (short : v < 64) : value? (symbol v) = some v := by
  have all : ∀ v < 64, value? (symbol v) = some v := by decide
  exact all v short

/-- Data characters are no padding and within ASCII. -/
theorem symbol_plain {v : ℕ} (short : v < 64) : symbol v ≠ '=' ∧ (symbol v).toNat < 128 := by
  have all : ∀ v < 64, symbol v ≠ '=' ∧ (symbol v).toNat < 128 := by decide
  exact all v short

theorem scan_symbols {values : List ℕ} (short : ∀ v ∈ values, v < 64) (count : ℕ)
    (rest : List Char) : scan count 0 false (values.map symbol ++ rest) =
      (scan (count + values.length) 0 false rest).map (values ++ ·) := by
  induction values generalizing count with
  | nil =>
    rw [List.map_nil, List.nil_append, List.length_nil, add_zero]
    cases scan count 0 false rest <;> rfl
  | cons v values ih =>
    obtain ⟨first, others⟩ := List.forall_mem_cons.mp short
    rw [List.map_cons, List.cons_append, scan, if_neg (symbol_plain first).1, value?_symbol first]
    simp only [Bool.false_eq_true, if_false]
    rw [ih others, List.length_cons, add_assoc, add_comm 1]
    cases scan (count + (values.length + 1)) 0 false rest <;> rfl

/-- Padding that fills up the last group ends a text. -/
theorem scan_padding {count pads : ℕ} (few : pads < 3) (filled : (count + pads) % 4 = 0) :
    scan count 0 false (List.replicate pads '=') = .ok [] := by
  obtain rfl | rfl | rfl : pads = 0 ∨ pads = 1 ∨ pads = 2 := by omega
  · have none : count % 4 = 0 := filled
    simp [scan, none]
  · have one : count % 4 = 3 := by omega
    simp [scan, one]
  · have two : count % 4 = 2 := by omega
    simp [scan, List.replicate, two]

theorem scan_encodeChars (b : Bytes) : scan 0 0 false (encodeChars b) = .ok (sextets b) := by
  have few : padding b < 3 := Nat.mod_lt _ (by decide)
  have filled : (0 + (sextets b).length + padding b) % 4 = 0 := by
    rw [zero_add, length_sextets]
  rw [encodeChars_eq, scan_symbols (sextets_lt b), scan_padding few filled]
  exact congrArg Except.ok (List.append_nil _)

/-- A text never starts with padding. -/
theorem head?_encodeChars (b : Bytes) : (encodeChars b).head? ≠ some '=' := by
  rw [encodeChars_eq]
  cases values : sextets b with
  | nil =>
    have empty : b = [] := by
      rw [← join_sextets b, values]
      rfl
    rw [empty]
    decide
  | cons v rest =>
    have short : v < 64 := sextets_lt b v (values ▸ List.mem_cons_self)
    simpa using (symbol_plain short).1

/-- A byte string is read back from its text. -/
theorem decode_encode (b : Bytes) : decode (encode b) = .ok b := by
  have ascii : (encodeChars b).any (fun c => 128 ≤ c.toNat) = false := by
    rw [List.any_eq_false, encodeChars_eq]
    intro c member
    rw [decide_eq_true_iff, Nat.not_le]
    rcases List.mem_append.mp member with data | filling
    · obtain ⟨v, known, rfl⟩ := List.mem_map.mp data
      exact (symbol_plain (sextets_lt b v known)).2
    · rw [List.eq_of_mem_replicate filling]
      decide
  rw [decode, encode, String.toList_ofList, decodeChars, ascii, if_neg Bool.false_ne_true,
    if_neg (head?_encodeChars b), scan_encodeChars]
  exact congrArg Except.ok (join_sextets b)

end Base64

end Quorum
