import Quorum.Proofs.Threshold.Ciphertext
import Quorum.Threshold.Scheme

/-!
# What is hashed can be read in one way

A transcript is hashed as a concatenation of byte strings, each behind its own length, and so are
the fields of a ciphertext. The number of byte strings is not written, and whoever chooses them may
put lengths into them. The concatenation is still read in one way only: the first length says where
the first byte string ends, and what is left is such a concatenation again. So different transcripts
and different ciphertexts are hashed as different byte strings, and have the same hash only if the
hash function does not tell these byte strings apart.

## Main definitions

* `Binds` — values that share a hash are equal or give a collision of the hash function
* `Statement` — what threshold encryption hashes to a scalar

## Main results

* `frame_append_inj` — the first length says where the first byte string ends
* `frameAll_inj` — framed byte strings are told by their concatenation
* `Transcript.bytes_inj`, `Ciphertext.framing_inj` — what is hashed tells what it is made of
* `hashing_binds` — transcripts, ciphertexts and statements are bound by their hashes
-/

namespace Quorum

section Frames

/-! ### Framed byte strings -/

/-- Only what fits behind its length is framed. -/
theorem frame_eq_ok {width : ℕ} {b framed : Bytes} (isOk : frame width b = .ok framed) :
    b.length < 256 ^ width ∧ framed = Bytes.ofNat width b.length ++ b := by
  rcases Nat.lt_or_ge b.length (256 ^ width) with short | long
  · rw [frame_of_lt short] at isOk
    exact ⟨short, (Except.ok.inj isOk).symm⟩
  · rw [frame_of_le long] at isOk
    cases isOk

/-- The length in front says where a framed byte string ends, whatever stands behind it. -/
theorem frame_append_inj {width : ℕ} {b b' framed framed' rest rest' : Bytes}
    (isOk : frame width b = .ok framed) (isOk' : frame width b' = .ok framed')
    (same : framed ++ rest = framed' ++ rest') : b = b' ∧ rest = rest' := by
  obtain ⟨short, rfl⟩ := frame_eq_ok isOk
  obtain ⟨short', rfl⟩ := frame_eq_ok isOk'
  rw [List.append_assoc, List.append_assoc] at same
  obtain ⟨lengths, bodies⟩ := List.append_inj same (by simp)
  exact List.append_inj bodies (Bytes.ofNat_inj short short' lengths)

theorem frameAll_cons_eq_ok {part : Bytes} {parts : List Bytes} {framed : Bytes} :
    frameAll (part :: parts) = .ok framed ↔ ∃ first rest, frame 4 part = .ok first ∧
      frameAll parts = .ok rest ∧ first ++ rest = framed := by
  simp only [frameAll, Outcome.bind_eq_ok, Except.ok.injEq, exists_and_left]

/-- Only no parts at all are framed as the empty byte string. -/
theorem eq_nil_of_frameAll {parts : List Bytes} (isOk : frameAll parts = .ok []) : parts = [] := by
  cases parts with
  | nil => rfl
  | cons part parts =>
    obtain ⟨first, rest, isOk, -, empty⟩ := frameAll_cons_eq_ok.mp isOk
    obtain ⟨-, rfl⟩ := frame_eq_ok isOk
    have length := congrArg List.length empty
    simp at length

/-- Framed parts can be cut up in one way, although their number is not written. -/
theorem frameAll_inj {parts parts' : List Bytes} {framed : Bytes}
    (isOk : frameAll parts = .ok framed) (isOk' : frameAll parts' = .ok framed) :
    parts = parts' := by
  -- The first part is cut off both sides, which leaves framed parts.
  induction parts generalizing parts' framed with
  | nil =>
    cases isOk
    exact (eq_nil_of_frameAll isOk').symm
  | cons part parts ih =>
    cases parts' with
    | nil =>
      cases isOk'
      exact eq_nil_of_frameAll isOk
    | cons part' parts' =>
      obtain ⟨first, rest, head, tail, rfl⟩ := frameAll_cons_eq_ok.mp isOk
      obtain ⟨first', rest', head', tail', same⟩ := frameAll_cons_eq_ok.mp isOk'
      obtain ⟨rfl, rfl⟩ := frame_append_inj head head' same.symm
      rw [ih tail tail']

end Frames

namespace Transcript

/-- The byte string that is hashed tells the transcript. -/
theorem bytes_inj {t t' : Transcript} {b : Bytes} (isOk : t.bytes = .ok b)
    (isOk' : t'.bytes = .ok b) : t = t' := by
  obtain ⟨domain, parts⟩ := t
  obtain ⟨domain', parts'⟩ := t'
  simp only [bytes, Outcome.bind_eq_ok, Except.ok.injEq] at isOk isOk'
  obtain ⟨first, head, rest, tail, rfl⟩ := isOk
  obtain ⟨first', head', rest', tail', same⟩ := isOk'
  obtain ⟨rfl, rfl⟩ := frame_append_inj head head' same.symm
  rw [frameAll_inj tail tail']

end Transcript

namespace Ciphertext

theorem fields_inj {c c' : Ciphertext} (same : c.fields = c'.fields) : c = c' := by
  cases c
  cases c'
  simpa [fields] using same

/-- The byte string that is hashed tells the ciphertext. -/
theorem framing_inj {c c' : Ciphertext} {b : Bytes} (isOk : c.framing = .ok b)
    (isOk' : c'.framing = .ok b) : c = c' :=
  fields_inj (frameAll_inj isOk isOk')

end Ciphertext

section Statements

/-! ### Proofs and nonces -/

/-- What threshold encryption hashes to a scalar. -/
inductive Statement where
  /-- The sender of a ciphertext knows the logarithm of the ephemeral point. -/
  | sender (ephemeral nonce sealed commitment : Bytes)
  /-- One secret gives the public share and the point of an answer. -/
  | link (publicShare point first second digest : Bytes)
  /-- What the nonce of an answer is derived from. -/
  | derivation (secret : ℤ) (digest : Bytes)

namespace Statement

/-- The transcript that is hashed. -/
def transcript : Statement → Transcript
  | sender ephemeral nonce sealed commitment =>
    ⟨Bytes.ascii "conclave/ciphertext", [ephemeral, nonce, sealed, commitment]⟩
  | link publicShare point first second digest =>
    Threshold.linkTranscript publicShare point first second digest
  | derivation secret digest => Threshold.nonceTranscript secret digest

/-- The scalar as senders, holders and verifiers compute it. -/
def scalar : Statement → Outcome ℕ
  | sender ephemeral nonce sealed commitment =>
    Ciphertext.challengeFor ephemeral nonce sealed commitment
  | link publicShare point first second digest =>
    (Threshold.linkTranscript publicShare point first second digest).challenge
  | derivation secret digest => (Threshold.nonceTranscript secret digest).challenge

/-- The byte strings fit behind their lengths, and the secret is one that a holder may have. -/
def Fits : Statement → Prop
  | sender ephemeral nonce sealed commitment =>
    ∀ field ∈ [ephemeral, nonce, sealed, commitment], field.length < 2 ^ 32
  | link publicShare point first second digest =>
    ∀ field ∈ [publicShare, point, first, second, digest], field.length < 2 ^ 32
  | derivation secret digest => (0 < secret ∧ secret < order) ∧ digest.length < 2 ^ 32

theorem scalar_eq (s : Statement) : s.scalar = s.transcript.challenge := by
  cases s <;> rfl

theorem transcript_fits {s : Statement} (fits : s.Fits) : s.transcript.Fits := by
  cases s with
  | sender ephemeral nonce sealed commitment => exact Ciphertext.transcript_fits fits
  | link publicShare point first second digest =>
    have domain : (Bytes.ascii "conclave/dleq").length < 256 ^ 2 := by decide
    exact ⟨domain, fits⟩
  | derivation secret digest =>
    have domain : (Bytes.ascii "conclave/dleq-nonce").length < 256 ^ 2 := by decide
    have short : (Scalar.toBytes secret).length < 256 ^ 4 := by simp [Scalar.toBytes]
    exact ⟨domain, List.forall_mem_cons.mpr ⟨short, List.forall_mem_singleton.mpr fits.2⟩⟩

/-- The transcript tells the statement, its kind included. -/
theorem transcript_inj {s s' : Statement} (fits : s.Fits) (fits' : s'.Fits)
    (same : s.transcript = s'.transcript) : s = s' := by
  have parts := congrArg Transcript.parts same
  -- Statements of different kinds have different numbers of parts.
  cases s <;> cases s' <;>
    simp only [transcript, Threshold.linkTranscript, Threshold.nonceTranscript, List.cons.injEq,
      reduceCtorEq, and_false, and_true] at parts
  case sender.sender => simp [parts]
  case link.link => simp [parts]
  case derivation.derivation =>
    have secrets := Scalar.toBytes_inj ⟨fits.1.1.le, fits.1.2⟩ ⟨fits'.1.1.le, fits'.1.2⟩ parts.1
    rw [secrets, parts.2]

end Statement

end Statements

section Binding

/-! ### Values bound by their hashes -/

/-- Two different byte strings with the same hash. -/
def Collides (hash : Bytes → Bytes) (b b' : Bytes) : Prop := b ≠ b' ∧ hash b = hash b'

/-- Values that fit are hashed as the byte strings that `feed` gives, and `finish` makes the answer
of the hash. No two values are hashed as the same byte string, so values with the same hash are
equal or give a collision. -/
structure Binds {α β : Type} (fits : α → Prop) (feed : α → Outcome Bytes) (hash : Bytes → Bytes)
    (finish : Bytes → β) (answer : α → Outcome β) : Prop where
  answers : ∀ v, fits v → ∃ b, feed v = .ok b ∧ answer v = .ok (finish (hash b))
  feed_inj : ∀ v v', fits v → fits v' → feed v = feed v' → v = v'
  /-- A shared hash is that of one value, or of two byte strings. -/
  collides : ∀ v v' b b', fits v → fits v' → feed v = .ok b → feed v' = .ok b' →
    hash b = hash b' → v = v' ∨ Collides hash b b'

theorem binds_of_feed_inj {α β : Type} {fits : α → Prop} {feed : α → Outcome Bytes}
    {hash : Bytes → Bytes} {finish : Bytes → β} {answer : α → Outcome β}
    (answers : ∀ v, fits v → ∃ b, feed v = .ok b ∧ answer v = .ok (finish (hash b)))
    (inj : ∀ v v' b, fits v → fits v' → feed v = .ok b → feed v' = .ok b → v = v') :
    Binds fits feed hash finish answer where
  answers := answers
  feed_inj v v' fit fit' same := by
    obtain ⟨b, isOk, -⟩ := answers v fit
    exact inj v v' b fit fit' isOk (same ▸ isOk)
  collides v v' b b' fit fit' isOk isOk' shared := by
    by_cases same : b = b'
    · exact .inl (inj v v' b fit fit' isOk (same ▸ isOk'))
    · exact .inr ⟨same, shared⟩

/-- Every transcript, every ciphertext and every statement of threshold encryption is hashed as a
byte string of its own as long as what it is made of fits behind its lengths: two bytes for the
length of a domain and four for that of a part or field. Two of a kind share a hash only through a
collision of the hash function. -/
theorem hashing_binds :
    Binds Transcript.Fits Transcript.bytes sha512 (fun h => Bytes.toNat h % order)
      Transcript.challenge ∧
    Binds Ciphertext.Fits Ciphertext.framing sha256 id Ciphertext.digest ∧
    Binds Statement.Fits (fun s => s.transcript.bytes) sha512 (fun h => Bytes.toNat h % order)
      Statement.scalar := by
  refine ⟨binds_of_feed_inj ?_ ?_, binds_of_feed_inj ?_ ?_, binds_of_feed_inj ?_ ?_⟩
  · exact fun t fits => Transcript.exists_bytes fits
  · exact fun t t' b _ _ isOk isOk' => Transcript.bytes_inj isOk isOk'
  · exact fun c fits => Ciphertext.exists_framing fits
  · exact fun c c' b _ _ isOk isOk' => Ciphertext.framing_inj isOk isOk'
  · intro s fits
    rw [Statement.scalar_eq]
    exact Transcript.exists_bytes (Statement.transcript_fits fits)
  · intro s s' b fits fits' isOk isOk'
    exact Statement.transcript_inj fits fits' (Transcript.bytes_inj isOk isOk')

/-- A part that looks like two parts with the length of the second between them is not taken for
them. -/
theorem imitated_parts_are_told_apart :
    (Transcript.mk [100] [[97], [98]]).Fits ∧ (Transcript.mk [100] [[97, 0, 0, 0, 1, 98]]).Fits ∧
    (Transcript.mk [100] [[97], [98]]).bytes ≠
      (Transcript.mk [100] [[97, 0, 0, 0, 1, 98]]).bytes := by
  have two : (Transcript.mk [100] [[97], [98]]).Fits := ⟨by decide, by decide⟩
  have one : (Transcript.mk [100] [[97, 0, 0, 0, 1, 98]]).Fits := ⟨by decide, by decide⟩
  exact ⟨two, one, fun same => absurd (hashing_binds.1.feed_inj _ _ two one same) (by decide)⟩

end Binding

end Quorum
