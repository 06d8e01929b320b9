import Quorum.Proofs.Shape.Faithful
import Quorum.Proofs.Threshold.KeySet
import Quorum.Threshold.Share

/-!
# The records of the scheme are read back

A key set, a ciphertext and the two kinds of shares are read back from what is written for them.
Byte strings are no hindrance, whatever they hold; integers must have the sign that the record asks
for and no more characters than the reader of documents takes, and every record that was read keeps
to that.

## Main definitions

* `KeySet.Fits`, `SecretShare.Fits`, `DecryptionShare.Fits` — the records that are read back

## Main results

* `KeySet.faithful`, `Ciphertext.faithful`, `SecretShare.faithful`, `DecryptionShare.faithful` — the
  written forms belong to their readers
-/

namespace Quorum

open Shape (Faithful faithful_int faithful_intFrom faithful_bytes)

namespace KeySet

/-- A byte field that was written is read back. -/
theorem required_bytes {v : Json} {name : String} {b : Bytes}
    (found : v.field? name = some (jsonBytes b)) : Shape.required name Shape.bytes v = .ok b :=
  faithful_bytes.required_eq_ok found trivial

/-- The threshold has not too many digits. -/
def Fits (s : KeySet) : Prop := (Json.intText s.threshold).length ≤ 4300

theorem threshold_of_ofParts {threshold : ℤ} {commitments : List Bytes} {s : KeySet}
    (isOk : ofParts threshold commitments = .ok s) : (s.threshold : ℤ) = threshold := by
  rw [ofParts] at isOk
  split at isOk
  · next rules =>
    cases isOk
    exact Int.toNat_of_nonneg (by omega)
  · cases isOk

/-- Key sets belong to their reader. -/
theorem faithful : Faithful toJson ofJson Fits 2 where
  read_write {s} _ := s.ofJson_toJson
  legible := legible_toJson
  fits {v s} bounded isOk := by
    obtain ⟨⟨threshold, commitments⟩, fields, parts⟩ :=
      Outcome.bind_eq_ok.mp (Shape.eq_ok_of_record isOk)
    obtain ⟨isThreshold, -⟩ := Checked.and_eq_ok.mp fields
    have short := (faithful_intFrom 1).fits_of_required bounded isThreshold
    rw [Fits, threshold_of_ofParts parts]
    exact short.2

end KeySet

namespace Ciphertext

/-- Ciphertexts belong to their reader, whatever their fields hold. -/
theorem faithful : Faithful toJson ofJson (fun _ => True) 1 where
  read_write {c} _ := by
    refine Outcome.bind_eq_ok.mpr
      ⟨(c.ephemeral, c.nonce, c.sealed, c.commitment, c.response), ?_, rfl⟩
    exact Checked.and_eq_ok.mpr ⟨KeySet.required_bytes rfl,
      Checked.and_eq_ok.mpr ⟨KeySet.required_bytes rfl,
      Checked.and_eq_ok.mpr ⟨KeySet.required_bytes rfl,
      Checked.and_eq_ok.mpr ⟨KeySet.required_bytes rfl, KeySet.required_bytes rfl⟩⟩⟩⟩
  legible _ _ := by
    refine .obj fun f member => ?_
    simp only [List.mem_cons, List.not_mem_nil, or_false] at member
    obtain rfl | rfl | rfl | rfl | rfl := member <;> exact .str _
  fits _ _ := trivial

end Ciphertext

namespace SecretShare

/-- The index is not negative, and neither integer has too many digits. -/
def Fits (s : SecretShare) : Prop :=
  (0 ≤ s.index ∧ (Json.intText s.index).length ≤ 4300) ∧ (Json.intText s.value).length ≤ 4300

/-- Secret shares belong to their reader. -/
theorem faithful : Faithful toJson ofJson Fits 1 where
  read_write {s} fits := by
    refine Outcome.bind_eq_ok.mpr ⟨(s.index, s.value), ?_, rfl⟩
    exact Checked.and_eq_ok.mpr ⟨(faithful_intFrom 0).required_eq_ok rfl fits.1,
      faithful_int.required_eq_ok rfl fits.2⟩
  legible {s} fits room := by
    refine .obj fun f member => ?_
    simp only [List.mem_cons, List.not_mem_nil, or_false] at member
    obtain rfl | rfl := member
    · exact .int fits.1.2
    · exact .int fits.2
  fits {v s} bounded isOk := by
    obtain ⟨⟨index, value⟩, fields, same⟩ := Outcome.bind_eq_ok.mp (Shape.eq_ok_of_record isOk)
    obtain ⟨isIndex, isValue⟩ := Checked.and_eq_ok.mp fields
    cases same
    exact ⟨(faithful_intFrom 0).fits_of_required bounded isIndex,
      faithful_int.fits_of_required bounded isValue⟩

end SecretShare

namespace DecryptionShare

/-- The actor is not negative and has not too many digits. -/
def Fits (s : DecryptionShare) : Prop := 0 ≤ s.actor ∧ (Json.intText s.actor).length ≤ 4300

/-- Decryption shares belong to their reader. -/
theorem faithful : Faithful toJson ofJson Fits 1 where
  read_write {s} fits := by
    refine Outcome.bind_eq_ok.mpr ⟨(s.actor, s.point, s.challenge, s.response), ?_, rfl⟩
    exact Checked.and_eq_ok.mpr ⟨(faithful_intFrom 0).required_eq_ok rfl fits,
      Checked.and_eq_ok.mpr ⟨KeySet.required_bytes rfl,
      Checked.and_eq_ok.mpr ⟨KeySet.required_bytes rfl, KeySet.required_bytes rfl⟩⟩⟩
  legible {s} fits room := by
    refine .obj fun f member => ?_
    simp only [List.mem_cons, List.not_mem_nil, or_false] at member
    obtain rfl | rfl | rfl | rfl := member
    · exact .int fits.2
    all_goals exact .str _
  fits {v s} bounded isOk := by
    obtain ⟨⟨actor, point, challenge, response⟩, fields, same⟩ :=
      Outcome.bind_eq_ok.mp (Shape.eq_ok_of_record isOk)
    obtain ⟨isActor, -⟩ := Checked.and_eq_ok.mp fields
    cases same
    exact (faithful_intFrom 0).fits_of_required bounded isActor

end DecryptionShare

end Quorum
