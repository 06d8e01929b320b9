import Quorum.Proofs.Channel.Seal
import Quorum.Proofs.Threshold.Records
import Quorum.Society.Request

/-!
# Every document of a society is read back

Sealed messages, the material of a setup, the share that is handed to an actor and an actor's
response are read back like the records of the scheme that they hold. The reader accepts many more
documents than are ever written: unknown and repeated fields, spaces, integers in other spellings
and Base64 with loose ends. Whatever it accepts is written in one form, and that form is stable.

## Main definitions

* `Material.Fits`, `KeyShare.Fits`, `ShareResponse.Fits` — the records that are read back

## Main results

* `SealedMessage.faithful`, `Material.faithful`, `KeyShare.faithful`, `ShareResponse.faithful` — the
  written forms belong to their readers
* `documents_roundTrip` — all documents that are sent or published round-trip
-/

namespace Quorum

open Shape (Faithful RoundTrips faithful_int faithful_text)

/-- Sealed messages belong to their reader, whatever their fields hold. -/
theorem SealedMessage.faithful : Faithful toJson ofJson (fun _ => True) 1 where
  read_write {m} _ := m.ofJson_toJson
  legible {m} _ := m.legible_toJson
  fits _ _ := trivial

namespace Material

/-- Neither the threshold nor the number of parties has too many digits. -/
def Fits (m : Material) : Prop := m.keys.Fits ∧ (Json.intText m.parties).length ≤ 4300

theorem ofParts_eq_ok (m : Material) : ofParts m.keys m.keys.threshold m.parties = .ok m := by
  have positive := m.keys.threshold_pos
  have below := m.threshold_lt
  rw [ofParts, if_neg (by omega), dif_pos ⟨rfl, below⟩]
  rfl

theorem of_ofParts {keys : KeySet} {threshold parties : ℤ} {m : Material}
    (isOk : ofParts keys threshold parties = .ok m) :
    m.keys = keys ∧ (m.parties : ℤ) = parties := by
  rw [ofParts] at isOk
  split at isOk
  · cases isOk
  · split at isOk
    · cases isOk
      exact ⟨rfl, Int.toNat_of_nonneg (by omega)⟩
    · cases isOk

/-- The material of a setup belongs to its reader. -/
theorem faithful : Faithful toJson ofJson Fits 3 where
  read_write {m} fits := by
    refine Outcome.bind_eq_ok.mpr ⟨(m.keys, m.keys.threshold, m.parties), ?_, m.ofParts_eq_ok⟩
    exact Checked.and_eq_ok.mpr ⟨KeySet.faithful.required_eq_ok rfl fits.1,
      Checked.and_eq_ok.mpr ⟨faithful_int.required_eq_ok rfl fits.1,
      faithful_int.required_eq_ok rfl fits.2⟩⟩
  legible {m} fits room := by
    refine .obj fun f member => ?_
    simp only [List.mem_cons, List.not_mem_nil, or_false] at member
    obtain rfl | rfl | rfl := member
    · exact KeySet.faithful.legible fits.1 room
    · exact .int fits.1
    · exact .int fits.2
  fits {v m} bounded isOk := by
    obtain ⟨⟨keys, threshold, parties⟩, fields, parts⟩ :=
      Outcome.bind_eq_ok.mp (Shape.eq_ok_of_record isOk)
    obtain ⟨isKeys, fields⟩ := Checked.and_eq_ok.mp fields
    obtain ⟨-, isParties⟩ := Checked.and_eq_ok.mp fields
    obtain ⟨same_keys, same_parties⟩ := of_ofParts parts
    rw [Fits, same_keys, same_parties]
    exact ⟨KeySet.faithful.fits_of_required bounded isKeys,
      faithful_int.fits_of_required bounded isParties⟩

end Material

namespace KeyShare

/-- The actor has not too many digits, and the secret share can be written. -/
def Fits (s : KeyShare) : Prop := (Json.intText s.actor).length ≤ 4300 ∧ s.secret.Fits

/-- The written form that includes the secret belongs to its reader. -/
theorem faithful : Faithful secretJson ofJson Fits 2 where
  read_write {s} fits := by
    refine Outcome.bind_eq_ok.mpr ⟨(s.actor, s.publicShare, s.secret), ?_, rfl⟩
    exact Checked.and_eq_ok.mpr ⟨faithful_int.required_eq_ok rfl fits.1,
      Checked.and_eq_ok.mpr ⟨KeySet.required_bytes rfl,
      SecretShare.faithful.required_eq_ok rfl fits.2⟩⟩
  legible {s} fits room := by
    refine .obj fun f member => ?_
    simp only [List.mem_cons, List.not_mem_nil, or_false] at member
    obtain rfl | rfl | rfl := member
    · exact .int fits.1
    · exact .str _
    · exact SecretShare.faithful.legible fits.2 room
  fits {v s} bounded isOk := by
    obtain ⟨⟨actor, publicShare, secret⟩, fields, same⟩ :=
      Outcome.bind_eq_ok.mp (Shape.eq_ok_of_record isOk)
    obtain ⟨isActor, fields⟩ := Checked.and_eq_ok.mp fields
    obtain ⟨-, isSecret⟩ := Checked.and_eq_ok.mp fields
    cases same
    exact ⟨faithful_int.fits_of_required bounded isActor,
      SecretShare.faithful.fits_of_required bounded isSecret⟩

end KeyShare

namespace ShareResponse

/-- The answering actor has not too many digits, and the share can be written. -/
def Fits (r : ShareResponse) : Prop := (Json.intText r.actor).length ≤ 4300 ∧ r.share.Fits

/-- Responses belong to their reader, whatever the request and the ciphertext are. -/
theorem faithful : Faithful toJson ofJson Fits 2 where
  read_write {r} fits := by
    refine Outcome.bind_eq_ok.mpr ⟨(r.actor, r.request, r.ciphertext, r.share), ?_, rfl⟩
    exact Checked.and_eq_ok.mpr ⟨faithful_int.required_eq_ok rfl fits.1,
      Checked.and_eq_ok.mpr ⟨faithful_text.required_eq_ok rfl trivial,
      Checked.and_eq_ok.mpr ⟨Ciphertext.faithful.required_eq_ok rfl trivial,
      DecryptionShare.faithful.required_eq_ok rfl fits.2⟩⟩⟩
  legible {r} fits room := by
    refine .obj fun f member => ?_
    simp only [List.mem_cons, List.not_mem_nil, or_false] at member
    obtain rfl | rfl | rfl | rfl := member
    · exact .int fits.1
    · exact .str _
    · exact Ciphertext.faithful.legible trivial room
    · exact DecryptionShare.faithful.legible fits.2 room
  fits {v r} bounded isOk := by
    obtain ⟨⟨actor, request, ciphertext, share⟩, fields, same⟩ :=
      Outcome.bind_eq_ok.mp (Shape.eq_ok_of_record isOk)
    obtain ⟨isActor, fields⟩ := Checked.and_eq_ok.mp fields
    obtain ⟨-, fields⟩ := Checked.and_eq_ok.mp fields
    obtain ⟨-, isShare⟩ := Checked.and_eq_ok.mp fields
    cases same
    exact ⟨faithful_int.fits_of_required bounded isActor,
      DecryptionShare.faithful.fits_of_required bounded isShare⟩

end ShareResponse

/-- All documents that are sent or published are read back from what is written for them, and
whatever a document was that one of the readers accepted, what is written for the value is read as
the value and written again in the same bytes. -/
theorem documents_roundTrip :
    RoundTrips KeySet.toJson KeySet.ofJson KeySet.Fits ∧
      RoundTrips Ciphertext.toJson Ciphertext.ofJson (fun _ => True) ∧
      RoundTrips DecryptionShare.toJson DecryptionShare.ofJson DecryptionShare.Fits ∧
      RoundTrips SealedMessage.toJson SealedMessage.ofJson (fun _ => True) ∧
      RoundTrips Material.toJson Material.ofJson Material.Fits ∧
      RoundTrips ShareResponse.toJson ShareResponse.ofJson ShareResponse.Fits := by
  refine ⟨KeySet.faithful.roundTrips ?_, Ciphertext.faithful.roundTrips ?_,
    DecryptionShare.faithful.roundTrips ?_, SealedMessage.faithful.roundTrips ?_,
    Material.faithful.roundTrips ?_, ShareResponse.faithful.roundTrips ?_⟩
  all_goals decide

/-- A document with blanks, an unknown field, a repeated field whose last value is written with a
fraction of zero, and Base64 with loose ends: what is written for the share is read as the share. A
response with a negative actor and a request of letters that are escaped or not is read back. -/
theorem documents_roundTrip_loose_share :
    let data := Bytes.ascii (" \x7b\"actor_id\": \"0_05\", \"share\":\"AB==\", \"x\":[1.5], " ++
      "\"challenge\":\"\",\n\"response\":\"AAE=\", \"actor_id\" : 7.0\x7d")
    let share : DecryptionShare := ⟨7, [0], [], [0, 1]⟩
    let response : ShareResponse := ⟨-3, "\n\"é😀", ⟨[], [1], [], [], [255]⟩, share⟩
    Shape.document DecryptionShare.ofJson data = .ok share ∧
      Shape.document DecryptionShare.ofJson (Shape.written DecryptionShare.toJson share) =
        .ok share ∧
      response.Fits ∧
      Shape.document ShareResponse.ofJson (Shape.written ShareResponse.toJson response) =
        .ok response := by
  intro data share response
  obtain ⟨-, -, shares, -, -, responses⟩ := documents_roundTrip
  have isOk : Shape.document DecryptionShare.ofJson data = .ok share := by decide +kernel
  have fits : response.Fits := by
    refine ⟨?_, ?_, ?_⟩ <;> decide
  exact ⟨isOk, (shares.stable data share isOk).1, fits, responses.reads_back response fits⟩

end Quorum
