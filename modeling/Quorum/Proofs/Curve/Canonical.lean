import Quorum.Proofs.Curve.Sec1

/-!
# Points have no third spelling

Ciphertexts are compared and hashed as they are written, so it matters that a point is not written
in more ways than its two forms. Decoding accepts the compressed and the uncompressed form of each
point of the curve that is not at infinity and no other byte string. Coordinates that are not
reduced, abscissae off the curve, other lengths and other form bytes are all refused.

## Main definitions

* `Curve.refusal` — why a byte string that stands for no point is refused

## Main results

* `Curve.decode_eq_point_iff` — the byte strings that a point is read from
* `Curve.decode_cases` — every byte string is read as a point of the curve or refused
* `Curve.p256_forms_are_canonical` — both for P-256, in terms of the functions that write points
-/

namespace Quorum

namespace Curve

/-- Why a byte string that stands for no point is refused. -/
def refusal : Bytes → BadValue
  | [] => .emptyPoint
  | form :: _ => if form = 2 ∨ form = 3 ∨ form = 4 then .invalidPoint else .unknownPointForm

/-- What is refused is refused for its form byte if that names no form, and else for the rest. -/
theorem eq_refusal_of_decode {E : Curve} {data : Bytes} {reason : BadValue}
    (refused : E.decode data = .error reason) : reason = refusal data := by
  obtain _ | ⟨form, rest⟩ := data
  · exact (Except.error.inj refused).symm
  simp only [decode] at refused
  rw [refusal]
  split at refused
  · next compressed =>
    have known : form = 2 ∨ form = 3 ∨ form = 4 := by tauto
    rw [if_pos known]
    split at refused
    · split at refused
      · cases refused
      · exact (Except.error.inj refused).symm
    · exact (Except.error.inj refused).symm
  · next notCompressed =>
    split at refused
    · next full =>
      rw [if_pos (.inr (.inr full))]
      split at refused
      · cases refused
      · exact (Except.error.inj refused).symm
    · next notFull =>
      have unknown : ¬(form = 2 ∨ form = 3 ∨ form = 4) := by tauto
      rw [if_neg unknown]
      exact (Except.error.inj refused).symm

section Forms

variable {E : Curve} [E.Encodable]

/-- A point that is not at infinity is read from its two forms and from no other byte string. -/
theorem decode_eq_point_iff {P : E.Element} (nonzero : P ≠ 0) (data : Bytes) :
    E.decode data = .ok P.point ↔ data = P.encoded ∨ data = P.uncompressed := by
  refine ⟨eq_form_of_decode, ?_⟩
  rintro (rfl | rfl)
  · exact decode_encoded nonzero
  · exact decode_uncompressed nonzero

/-- Every byte string is read as a point of the curve that is not at infinity, or refused. -/
theorem decode_cases (E : Curve) [E.Encodable] (data : Bytes) :
    (∃ P : E.Element, P ≠ 0 ∧ E.decode data = .ok P.point) ∨
      E.decode data = .error (refusal data) := by
  cases read : E.decode data with
  | ok P =>
    obtain ⟨Q, nonzero, rfl⟩ := exists_of_decode read
    exact .inl ⟨Q, nonzero, rfl⟩
  | error reason => exact .inr (by rw [eq_refusal_of_decode read])

end Forms

/-- Every point of P-256 with reduced coordinates can be written in 33 and in 65 bytes and is read
from these two byte strings only. Whatever else is read from is refused: a byte string stands for
one of these points or for nothing. -/
theorem p256_forms_are_canonical :
    (∀ x y, p256.Reduced (.affine x y) → ∃ short long,
      compress (.affine x y) = .ok short ∧ short.length = 33 ∧
      p256.uncompress (.affine x y) = .ok long ∧ long.length = 65 ∧
      ∀ data, p256.decode data = .ok (.affine x y) ↔ data = short ∨ data = long) ∧
    ∀ data, (∃ x y, p256.Reduced (.affine x y) ∧ p256.decode data = .ok (.affine x y)) ∨
      p256.decode data = .error (refusal data) := by
  constructor
  · intro x y reduced
    let P : p256.Element := ⟨.affine x y, reduced⟩
    have nonzero : P ≠ 0 := fun zero => Point.noConfusion (Element.eq_zero_iff.mp zero)
    obtain ⟨rest, split, rest_length⟩ := Element.exists_uncompressed_eq nonzero
    refine ⟨P.encoded, P.uncompressed, compress_point nonzero, Element.length_encoded nonzero,
      uncompress_point nonzero, ?_, decode_eq_point_iff nonzero⟩
    rw [split, List.length_cons, rest_length]
  · intro data
    rcases decode_cases p256 data with ⟨⟨P, reduced⟩, nonzero, read⟩ | refused
    · cases P with
      | infinity => exact absurd rfl nonzero
      | affine x y => exact .inl ⟨x, y, reduced, read⟩
    · exact .inr refused

/-- The base point has two forms; an abscissa beyond the field prime is refused. -/
theorem base_point_forms :
    (∃ short long, compress p256.base = .ok short ∧ p256.uncompress p256.base = .ok long ∧
      short.length = 33 ∧ long.length = 65 ∧
      ∀ data, p256.decode data = .ok p256.base ↔ data = short ∨ data = long) ∧
    p256.decode (2 :: List.replicate 32 255) = .error .invalidPoint := by
  have onBase : p256.Reduced p256.base := by decide +kernel
  obtain ⟨short, long, compressed, short_length, full, long_length, forms⟩ :=
    p256_forms_are_canonical.1 _ _ onBase
  refine ⟨⟨short, long, compressed, full, short_length, long_length, forms⟩, ?_⟩
  rcases p256_forms_are_canonical.2 (2 :: List.replicate 32 255) with ⟨x, y, -, read⟩ | refused
  · cases read
  · exact refused

end Curve

end Quorum
