import Mathlib.Algebra.BigOperators.Group.List.Basic
import Mathlib.Data.List.GetD
import Mathlib.Tactic.Set
import Quorum.Cipher.Gcm

/-!
# A sealed payload is opened again

Every word, round key and block has its fixed length, so the mask is at least as long as what it
masks and the tag is sixteen bytes long. Masking twice gives the payload back, and the tag that
opening compares is the one that sealing wrote.

## Main results

* `Aes.length_of_mem_expandKey` — round keys have sixteen bytes
* `Aes.length_encryptBlock` — so does an encrypted block
* `Gcm.decrypt?_encrypt` — opening what was sealed gives the payload
-/

namespace Quorum

namespace Bytes

@[simp] theorem length_xor (a b : Bytes) : (xor a b).length = min a.length b.length :=
  List.length_zipWith

/-- Masking twice with a mask that is long enough gives the byte string back. -/
theorem xor_xor_cancel {a b : Bytes} (covers : a.length ≤ b.length) : xor (xor a b) b = a := by
  induction a generalizing b with
  | nil => simp [xor]
  | cons x a ih =>
    obtain _ | ⟨y, b⟩ := b
    · simp at covers
    · have rest := ih (b := b) (by simpa using covers)
      simp only [xor, List.zipWith_cons_cons] at rest ⊢
      rw [rest, UInt8.xor_assoc, UInt8.xor_self, UInt8.xor_zero]

/-- A byte string of whole blocks is cut into whole blocks. -/
theorem blocks_whole {size k : ℕ} {b : Bytes} (whole : b.length = (size + 1) * k) :
    (blocks size b).length = k ∧ ∀ block ∈ blocks size b, block.length = size + 1 := by
  fun_induction blocks size b generalizing k with
  | case1 =>
    rcases Nat.mul_eq_zero.mp whole.symm with impossible | zero
    · omega
    · simp [zero]
  | case2 x b ih =>
    obtain _ | k := k
    · simp at whole
    · rw [List.length_cons, Nat.mul_succ] at whole
      obtain ⟨count, rest⟩ := ih (k := k) (by rw [List.length_drop]; omega)
      refine ⟨by rw [List.length_cons, count], List.forall_mem_cons.mpr ⟨?_, rest⟩⟩
      rw [List.length_cons, List.length_take]
      omega

end Bytes

namespace Aes

/-- Every word of a schedule has four bytes. -/
def Words (words : List Bytes) : Prop := ∀ word ∈ words, word.length = 4

private theorem Words.length_getD {words : List Bytes} (four : Words words) {i : ℕ}
    (present : i < words.length) : (words.getD i []).length = 4 := by
  rw [List.getD_eq_getElem _ _ present]
  exact four _ (List.getElem_mem present)

/-- The next word has four bytes. -/
theorem length_nextWord {newest : List Bytes} (four : Words newest) (eight : 8 ≤ newest.length)
    (i : ℕ) (roundConstant : UInt8) : (nextWord i roundConstant newest).length = 4 := by
  have last := four.length_getD (i := 0) (by omega)
  have eighth := four.length_getD (i := 7) (by omega)
  simp only [nextWord, Bytes.length_xor, eighth]
  generalize newest.getD 0 [] = newestWord at last ⊢
  split
  · simp [last]
  · split <;> simp [last]

/-- Extending a schedule adds words of four bytes. -/
theorem words_extendKey {newest : List Bytes} (four : Words newest) (eight : 8 ≤ newest.length)
    (n i : ℕ) (roundConstant : UInt8) :
    Words (extendKey n i roundConstant newest) ∧
      (extendKey n i roundConstant newest).length = newest.length + n := by
  induction n generalizing newest i roundConstant with
  | zero => exact ⟨four, rfl⟩
  | succ n ih =>
    have next := length_nextWord four eight i roundConstant
    have longer : Words (nextWord i roundConstant newest :: newest) :=
      List.forall_mem_cons.mpr ⟨next, four⟩
    obtain ⟨extended, length⟩ := ih longer (Nat.le_succ_of_le eight) (i + 1)
      (if i % 8 = 0 then double roundConstant else roundConstant)
    exact ⟨extended, by rw [extendKey, length, List.length_cons]; omega⟩

/-- The round keys of a 32-byte key have sixteen bytes. -/
theorem length_of_mem_expandKey {key : Bytes} (length : key.length = 32) {roundKey : Bytes}
    (member : roundKey ∈ expandKey key) : roundKey.length = 16 := by
  obtain ⟨count, four⟩ : (Bytes.blocks 3 key).length = 8 ∧ Words (Bytes.blocks 3 key) :=
    Bytes.blocks_whole length
  have reversed : Words (Bytes.blocks 3 key).reverse :=
    fun word present => four word (List.mem_reverse.mp present)
  obtain ⟨extended, total⟩ := words_extendKey reversed (by simp [count]) 52 8 1
  -- Sixty words of four bytes, cut into fifteen round keys.
  have bytes : (extendKey 52 8 1 (Bytes.blocks 3 key).reverse).reverse.flatten.length
      = (15 + 1) * 15 := by
    rw [List.length_flatten, List.map_reverse, List.sum_reverse,
      List.map_congr_left extended, List.map_const', List.sum_replicate, total,
      List.length_reverse, count, Nat.nsmul_eq_mul]
  exact (Bytes.blocks_whole bytes).2 roundKey member

theorem length_mixColumns (b : Bytes) : (mixColumns b).length = b.length / 4 * 4 := by
  fun_induction mixColumns b with
  | case1 a b c d r s ih => simp only [List.length_cons, ih]; omega
  | case2 b short =>
    match b with
    | [] | [_] | [_, _] | [_, _, _] => simp
    | a :: b :: c :: d :: r => exact absurd rfl (short a b c d r)

theorem length_rounds {keys : List Bytes} {block : Bytes} (sixteen : ∀ k ∈ keys, k.length = 16)
    (length : block.length = 16) : (rounds keys block).length = 16 := by
  fun_induction rounds keys block with
  | case1 block => exact length
  | case2 k block => simp [shiftRows, rowShift, sixteen k (by simp)]
  | case3 k ks block more ih =>
    refine ih (fun k' member => sixteen k' (List.mem_cons_of_mem _ member)) ?_
    simp [length_mixColumns, shiftRows, rowShift, sixteen k (by simp)]

/-- An encrypted block has sixteen bytes. -/
theorem length_encryptBlock {keys : List Bytes} {block : Bytes}
    (sixteen : ∀ k ∈ keys, k.length = 16) (length : block.length = 16) :
    (encryptBlock keys block).length = 16 := by
  unfold encryptBlock
  split
  · exact length
  · next k ks =>
    refine length_rounds (fun k' member => sixteen k' (List.mem_cons_of_mem _ member)) ?_
    rw [Bytes.length_xor, length, sixteen k List.mem_cons_self, Nat.min_self]

end Aes

namespace Gcm

section Lengths

variable {keys : List Bytes} (sixteen : ∀ k ∈ keys, k.length = 16)

include sixteen

theorem length_maskBlock (counter : ℕ) : (maskBlock keys counter).length = 16 :=
  Aes.length_encryptBlock sixteen (Bytes.length_ofNat 16 counter)

/-- The mask covers what it masks. -/
theorem le_length_keystream (first length : ℕ) :
    length ≤ (keystream keys first length).length := by
  have blocks : (keystream keys first length).length = (length + 15) / 16 * 16 := by
    simp only [keystream, List.length_flatMap, length_maskBlock sixteen]
    simp
  omega

theorem length_tag (h first : ℕ) (associated masked : Bytes) :
    (tag keys h first associated masked).length = 16 := by
  simp [tag, length_maskBlock sixteen]

end Lengths

/-- The sealed payload is sixteen bytes longer than the payload. -/
theorem length_encrypt {key : Bytes} (length : key.length = 32)
    (nonce associated payload : Bytes) :
    (encrypt key nonce associated payload).length = payload.length + 16 := by
  have sixteen : ∀ k ∈ Aes.expandKey key, k.length = 16 := fun k member =>
    Aes.length_of_mem_expandKey length member
  simp only [encrypt, List.length_append, length_tag sixteen, Bytes.length_xor]
  rw [Nat.min_eq_left (le_length_keystream sixteen _ _)]

/-- Opening what was sealed gives the payload. -/
theorem decrypt?_encrypt {key nonce : Bytes} (length : key.length = 32)
    (fits : nonceFits nonce = true) (associated payload : Bytes) :
    decrypt? key nonce associated (encrypt key nonce associated payload) = some payload := by
  have sixteen : ∀ k ∈ Aes.expandKey key, k.length = 16 := fun k member =>
    Aes.length_of_mem_expandKey length member
  set keys := Aes.expandKey key with keys_def
  set first := firstCounter (hashKey keys) nonce with first_def
  set masked := Bytes.xor payload (keystream keys first payload.length) with masked_def
  have covers := le_length_keystream sixteen first payload.length
  have masked_length : masked.length = payload.length := by simp [masked_def, covers]
  have sealed_length := length_encrypt length nonce associated payload
  -- The last sixteen bytes are the tag, and what is before them is the masked payload.
  have whole : encrypt key nonce associated payload =
      masked ++ tag keys (hashKey keys) first associated masked := rfl
  have before : (encrypt key nonce associated payload).length - 16 = masked.length := by omega
  have long : ¬(encrypt key nonce associated payload).length < 16 := by omega
  simp only [decrypt?, fits, long, before, ← keys_def, ← first_def]
  rw [whole, List.take_left, List.drop_left]
  simp only [Bool.not_true, decide_false, Bool.or_self, Bool.false_eq_true, if_false, if_true]
  rw [masked_length, masked_def, Bytes.xor_xor_cancel covers]

end Gcm

end Quorum
