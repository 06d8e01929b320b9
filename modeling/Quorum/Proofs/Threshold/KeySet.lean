import Mathlib.Data.Nat.Digits.Defs
import Quorum.Proofs.Outcome
import Quorum.Proofs.Shape
import Quorum.Threshold.KeySet

/-!
# A published key set is read back

A published key set is longer than a bare public key, so those who encrypt can tell the two apart,
and they find the same public key in either.

## Main results

* `KeySet.ofBytes_toBytes` — a key set is read back from the bytes it is published as
* `SocietyKey.publicKey_toBytes` — the public key of a published key set
-/

namespace Quorum

namespace KeySet

variable {s : KeySet}

theorem checkPoints_eq_ok {commitments : List Bytes}
    (points : ∀ c ∈ commitments, isPoint c = true) : checkPoints commitments = .ok () := by
  rw [checkPoints, List.findSome?_eq_none_iff.mpr]
  intro c member
  obtain ⟨P, read⟩ := Outcome.exists_of_isOk (points c member)
  rw [read]

theorem ofParts_eq_ok (s : KeySet) : ofParts s.threshold s.commitments = .ok s := by
  rw [ofParts, dif_pos ⟨s.threshold_pos, s.length_commitments, s.isPoint_commitments⟩]
  rfl

/-- A key set is read back from what is written for it. -/
theorem ofJson_toJson (s : KeySet) : ofJson s.toJson = .ok s := by
  have threshold : Shape.required "threshold" (Shape.intFrom 1) s.toJson = .ok s.threshold :=
    Shape.required_eq_ok rfl (Shape.intFrom_int (by exact_mod_cast s.threshold_pos))
  have commitments : Shape.required "commitments" points s.toJson = .ok s.commitments := by
    refine Shape.required_eq_ok rfl ?_
    have bytes : Shape.list Shape.bytes (.arr (s.commitments.map jsonBytes)) = .ok s.commitments :=
      Shape.elements_map (fun c _ => Shape.bytes_encode c) 0
    rw [points, bytes]
    dsimp only [bind, Except.bind]
    rw [checkPoints_eq_ok s.isPoint_commitments]
  change ((Shape.required "threshold" (Shape.intFrom 1) s.toJson).and
    (Shape.required "commitments" points s.toJson) >>= fun x => ofParts x.1 x.2) = .ok s
  rw [threshold, commitments]
  exact ofParts_eq_ok s

theorem legible_toJson (short : (Json.intText s.threshold).length ≤ 4300) (room : ℕ) :
    s.toJson.Legible (room + 2) := by
  have commitments : ∀ v ∈ s.commitments.map jsonBytes, v.Legible room := by
    intro v member
    obtain ⟨c, -, rfl⟩ := List.mem_map.mp member
    exact .str _
  refine .obj fun f member => ?_
  simp only [List.mem_cons, List.not_mem_nil, or_false] at member
  obtain rfl | rfl := member
  · exact .int short
  · exact .arr commitments

/-- A key set is read back from the bytes it is published as, unless the threshold has too many
digits. -/
theorem ofBytes_toBytes (short : (Json.intText s.threshold).length ≤ 4300) :
    ofBytes s.toBytes = .ok s := by
  rw [ofBytes, toBytes, Shape.document_encode (legible_toJson short 198), ofJson_toJson]

/-- A threshold below the order has few digits. -/
theorem length_intText_threshold (below : s.threshold < order) :
    (Json.intText s.threshold).length ≤ 4300 := by
  have power : s.threshold < 10 ^ 78 := below.trans (by decide)
  rw [Json.intText, if_neg (Int.natCast_nonneg _).not_gt, Int.natAbs_natCast]
  exact (Nat.toDigits_length 10 s.threshold 78 (by decide) power).trans (by decide)

/-- A published key set is longer than an encoded point. -/
theorem length_toBytes (s : KeySet) : 33 < s.toBytes.length := by
  obtain ⟨first, second, rest, split⟩ : ∃ first second rest,
      s.commitments = first :: second :: rest := by
    have two : 2 ≤ s.commitments.length := s.length_commitments ▸ Nat.succ_le_succ s.threshold_pos
    generalize s.commitments = commitments at two
    obtain _ | ⟨first, _ | ⟨second, rest⟩⟩ := commitments
    · cases two
    · cases Nat.le_of_succ_le_succ two
    · exact ⟨first, second, rest, rfl⟩
  have written : s.toJson.compactChars.length ≤ s.toBytes.length := by
    have chars := Utf8.length_le_length_encode s.toJson.compact
    rwa [Json.compact, String.toList_ofList] at chars
  -- The names, the punctuation and the quotes of two commitments are long enough.
  have threshold : (Json.Token.str "threshold".toList).text.length = 11 := by decide
  have commitments : (Json.Token.str "commitments".toList).text.length = 13 := by decide
  have quoted (b : Bytes) : 2 ≤ (jsonBytes b).compactChars.length := by
    simp [jsonBytes, Json.compactChars, Json.tokens, Json.Token.text, Json.quote]
  have list : 6 ≤ (Json.arr (s.commitments.map jsonBytes)).compactChars.length := by
    have first_length := quoted first
    have second_length := quoted second
    simp only [Json.compactChars] at first_length second_length
    simp only [split, List.map_cons, Json.compactChars, Json.tokens, Json.itemTokens,
      List.cons_append, List.flatMap_cons, List.flatMap_append, List.length_append, Json.Token.text,
      List.length_cons]
    omega
  have object : s.toJson.compactChars.length = 29 + (Json.intText s.threshold).length +
      (Json.arr (s.commitments.map jsonBytes)).compactChars.length := by
    simp only [toJson, Json.compactChars, Json.tokens, Json.fieldTokens, List.cons_append,
      List.nil_append, List.flatMap_cons, List.flatMap_append, List.flatMap_nil,
      List.length_append, threshold, commitments]
    simp only [Json.Token.text, List.length_singleton, List.length_nil]
    omega
  omega

end KeySet

namespace SocietyKey

/-- The public key of a published key set is that of the key set. -/
theorem publicKey_toBytes {s : KeySet} (short : (Json.intText s.threshold).length ≤ 4300) :
    publicKey (.bytes s.toBytes) = publicKey (.set s) := by
  rw [publicKey.eq_def]
  dsimp only
  rw [if_neg s.length_toBytes.ne', KeySet.ofBytes_toBytes short]
  rfl

end SocietyKey

end Quorum
