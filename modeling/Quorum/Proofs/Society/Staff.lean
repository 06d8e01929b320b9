import Quorum.Proofs.Society.Dealer
import Quorum.Proofs.Threshold.RoundTrip
import Quorum.Society.Coordinator

/-!
# The actors of a dealt society

An actor with a dealt key share answers every ciphertext that passes the check, and its answer is
right. It refuses one that fails the check, and it cannot check one with a field of `2 ^ 32` bytes
or more. Any quorum of answers to one ciphertext combines to the same.

## Main definitions

* `Coordinator.Dealt` — a coordinator over actors of a dealt society
* `Coordinator.Staffed` — what a coordinator can rely on

## Main results

* `Actor.compute_cases` — how an actor answers
* `Coordinator.Dealt.staffed` — a coordinator over dealt actors can rely on them
-/

namespace Quorum

variable {parties threshold : ℤ} {draw : ℕ → ℕ} {material : Material} {keyShares : List KeyShare}

namespace Threshold.Dealt

variable {keys : KeySet} {secrets : List SecretShare} {coefficients : List ℤ}

/-- There is no public share for a value that is zero. -/
theorem evaluate_ne_zero (dealt : Dealt keys secrets coefficients) {i : ℤ} {publicShare : Bytes}
    (known : keys.publicShare i = .ok publicShare) :
    Sharing.evaluate coefficients (i + 1) ≠ 0 := by
  intro zero
  by_cases nonneg : 0 ≤ i
  · rw [KeySet.publicShare_eq_commit dealt.nonzero dealt.commitments nonneg, zero,
      commit_eq_error Int.cast_zero] at known
    cases known
  · rw [KeySet.publicShare, if_pos (by omega)] at known
    cases known

end Threshold.Dealt

namespace Actor

open Threshold

variable {keys : KeySet} {secrets : List SecretShare} {coefficients : List ℤ} {a : Actor}
  {c : Ciphertext}

/-- How an actor with a share of the polynomial answers: with its share of the ephemeral point, or
with a fault when the ciphertext fails the check, or when it cannot be checked. -/
theorem compute_cases (dealt : Threshold.Dealt keys secrets coefficients)
    (member : a.share.secret ∈ secrets)
    (own : a.share.actor = a.share.secret.index) (elliptic : a.scheme = .elliptic)
    (known : keys.publicShare a.id = .ok a.share.publicShare) :
    (∃ share, a.compute c = .ok share ∧ c.verify = .ok true ∧ share.actor = a.id ∧
        verifyShare share a.share.publicShare c = .ok true ∧ ∀ U : P256,
          decodePoint c.ephemeral = .ok U.point →
            decodePoint share.point =
              .ok ((Sharing.evaluate coefficients (a.id + 1) : ZMod order) • U).point) ∨
      (a.compute c = .error .ciphertextProof ∧ c.verify = .ok false) ∨
      (a.compute c = .error .tooBig ∧ c.verify = .error .tooBig) := by
  have index : a.id = a.share.secret.index := own
  have nonzero := dealt.evaluate_ne_zero known
  rw [index, ← dealt.value _ member] at nonzero
  obtain ⟨positive, below⟩ := dealt.value_mem_range member nonzero
  have range := dealt.range _ member
  have value := dealt.value _ member
  have computed : a.compute c = blamed a.id (decryptShare a.share.secret c) := by
    rw [compute, elliptic]
    rfl
  cases verified : c.verify with
  | error f =>
    obtain ⟨rfl, -⟩ := Ciphertext.eq_tooBig_of_verify verified
    refine .inr (.inr ⟨?_, rfl⟩)
    simp only [computed, decryptShare, positive, below, and_self, not_true_eq_false, if_false,
      verified, Outcome.bind_error, blamed, Fault.isBadValue, Bool.false_eq_true]
  | ok wellFormed =>
    cases wellFormed with
    | false =>
      refine .inr (.inl ⟨?_, rfl⟩)
      simp only [computed, decryptShare, positive, below, and_self, not_true_eq_false, if_false,
        verified, Outcome.bind_ok, Bool.not_false, if_true, blamed, Fault.isBadValue,
        Bool.false_eq_true]
    | true =>
      obtain ⟨U, -, -, -, U_ne, read, -⟩ := Ciphertext.verify_eq_true_iff.mp verified
      obtain ⟨share, answered, actor, point, right⟩ :=
        decryptShare_eq_ok range.1 positive below verified U_ne read
      have value_ne := Scalar.cast_ne_zero positive below
      have publicShare : a.share.publicShare = (baseMultiple a.share.secret.value).encoded := by
        have dealtShare := dealt.publicShare_eq_ok range.1 (value ▸ nonzero)
        rw [← value, ← index, known] at dealtShare
        exact Except.ok.inj dealtShare
      refine .inl ⟨share, ?_, rfl, actor.trans index.symm, ?_, fun V V_read => ?_⟩
      · rw [computed, answered]
        rfl
      · apply right
        rw [publicShare, decodePoint_encoded (baseMultiple_ne_zero value_ne)]
      · rw [read, Except.ok.injEq, ← Curve.Element.ext_iff] at V_read
        rw [point, ← V_read, decodePoint_encoded (smul_ne_zero value_ne U_ne), value, index]

end Actor

namespace Coordinator

/-- A coordinator over some actors of a dealt society, each under its own index. -/
structure Dealt (k : Coordinator) (keyShares : List KeyShare) : Prop where
  scheme : k.scheme = .elliptic
  actors : ∀ id a, k.actors.get? id = some a →
    a.id = id ∧ a.share ∈ keyShares ∧ a.scheme = .elliptic

/-- A coordinator over the actors that are made of dealt key shares. -/
theorem dealt_of_actors {k : Coordinator} (scheme : k.scheme = .elliptic)
    (actors : k.actors =
      Table.ofList ((keyShares.map fun s => Actor.new s .elliptic).map fun a => (a.id, a))) :
    k.Dealt keyShares where
  scheme := scheme
  actors := fun id a found => by
    rw [actors] at found
    obtain ⟨a', member, pair⟩ := List.mem_map.mp (Table.mem_of_get?_ofList found)
    obtain ⟨s, dealt, rfl⟩ := List.mem_map.mp member
    obtain ⟨rfl, rfl⟩ := Prod.mk.inj pair
    exact ⟨rfl, dealt, rfl⟩

/-- What a coordinator can rely on when it asks its actors about a ciphertext. -/
structure Staffed (k : Coordinator) (c : Ciphertext) : Prop where
  scheme : k.scheme = .elliptic
  complete : k.material.Complete
  /-- The actors are parties of the society. -/
  own : ∀ id a, k.actors.get? id = some a → a.id = id ∧ (0 ≤ id ∧ id < k.material.parties) ∧
    k.material.keys.publicShare id = .ok a.share.publicShare
  /-- Their answers are right. -/
  answers : ∀ id a share, k.actors.get? id = some a → a.compute c = .ok share →
    c.verify = .ok true ∧ share.actor = id ∧
      Threshold.verifyShare share a.share.publicShare c = .ok true
  /-- They refuse what fails the check. -/
  refuses : ∀ id a f, k.actors.get? id = some a → a.compute c = .error f →
    f = .ciphertextProof ∧ c.verify = .ok false ∨ f = .tooBig ∧ c.verify = .error .tooBig
  /-- Any quorum of their answers combines to the same. -/
  agree : ∃ combined, ∀ shares : Table ℤ DecryptionShare,
    (∀ i share, shares.get? i = some share →
      ∃ a, k.actors.get? i = some a ∧ a.compute c = .ok share) →
    k.material.quorum ≤ shares.size → Threshold.combine shares k.material.keys c = combined

section Dealt

variable {k : Coordinator} {c : Ciphertext} (staff : k.Dealt keyShares)
  (dealt : Dealer.deal parties threshold draw = .ok (k.material, keyShares))
  (small : parties < order)

include staff dealt small

/-- Every actor holds the share of the drawn polynomial at its index. -/
theorem Dealt.exists_polynomial : ∃ secrets rest,
    Threshold.Dealt k.material.keys secrets ((Scalar.ofDraw (draw 0) : ℤ) :: rest) ∧
      ∀ id a, k.actors.get? id = some a → a.id = id ∧ (0 ≤ id ∧ id < k.material.parties) ∧
        a.share.secret ∈ secrets ∧ a.share.actor = a.share.secret.index ∧ a.scheme = .elliptic ∧
        k.material.keys.publicShare a.id = .ok a.share.publicShare := by
  obtain ⟨secrets, generated, shared, parties_eq⟩ := Dealer.deal_eq_ok_iff.mp dealt
  obtain ⟨⟨rest, polynomial⟩, -⟩ := Threshold.exists_dealt generated small
  refine ⟨secrets, rest, polynomial, fun id a found => ?_⟩
  obtain ⟨own, member, elliptic⟩ := staff.actors id a found
  -- Its key share was made for one of the secret shares.
  obtain ⟨s, s_member, computed⟩ := Outcome.exists_of_mem_mapM shared _ member
  obtain ⟨publicShare, known, share_eq⟩ := Outcome.bind_eq_ok.mp computed
  rw [Actor.id] at own ⊢
  rw [← Except.ok.inj share_eq] at own ⊢
  refine ⟨own, ?_, s_member, rfl, elliptic, known⟩
  rw [Threshold.secrets_of_generate generated, List.mem_map] at s_member
  obtain ⟨i, below, rfl⟩ := s_member
  have := List.mem_range.mp below
  simp only at own
  omega

/-- Any quorum of answers to a ciphertext that passes the check opens it with the secret times its
ephemeral point. -/
theorem Dealt.combine_eq {U : P256} (read : decodePoint c.ephemeral = .ok U.point)
    {shares : Table ℤ DecryptionShare} (answered : ∀ i share, shares.get? i = some share →
      ∃ a, k.actors.get? i = some a ∧ a.compute c = .ok share)
    (enough : k.material.quorum ≤ shares.size) :
    Threshold.combine shares k.material.keys c = Threshold.opened
      (Threshold.openPayload (((Scalar.ofDraw (draw 0) : ℤ) : ZMod order) • U).point c) := by
  obtain ⟨secrets, rest, polynomial, made⟩ := staff.exists_polynomial dealt small
  have length := polynomial.length
  rw [List.length_cons, Nat.add_right_cancel_iff] at length
  refine Threshold.combine_eq_openPayload (fun i share found => ?_) length enough
  obtain ⟨a, found, computed⟩ := answered i share found
  obtain ⟨rfl, -, member, own, elliptic, known⟩ := made i a found
  obtain ⟨nonneg, below⟩ := polynomial.range _ member
  rw [← own] at nonneg below
  refine ⟨nonneg, below, ?_⟩
  rcases Actor.compute_cases polynomial member own elliptic known with
    ⟨share', computed', -, -, -, point⟩ | ⟨refused, -⟩ | ⟨refused, -⟩
  · obtain rfl := Except.ok.inj (computed'.symm.trans computed)
    exact point U read
  · rw [refused] at computed
    cases computed
  · rw [refused] at computed
    cases computed

/-- A coordinator over dealt actors can rely on them. -/
theorem Dealt.staffed (c : Ciphertext) : k.Staffed c := by
  obtain ⟨secrets, rest, polynomial, made⟩ := staff.exists_polynomial dealt small
  have cases (id : ℤ) (a : Actor) (found : k.actors.get? id = some a) := by
    obtain ⟨-, -, member, own, elliptic, known⟩ := made id a found
    exact Actor.compute_cases (c := c) polynomial member own elliptic known
  have answers (id : ℤ) (a : Actor) (share : DecryptionShare) (found : k.actors.get? id = some a)
      (computed : a.compute c = .ok share) : c.verify = .ok true ∧ share.actor = id ∧
        Threshold.verifyShare share a.share.publicShare c = .ok true := by
    obtain ⟨rfl, -⟩ := made id a found
    rcases cases _ a found with ⟨share', computed', holds, actor, right, -⟩ |
      ⟨refused, -⟩ | ⟨refused, -⟩
    · obtain rfl := Except.ok.inj (computed'.symm.trans computed)
      exact ⟨holds, actor, right⟩
    · rw [refused] at computed
      cases computed
    · rw [refused] at computed
      cases computed
  refine ⟨staff.scheme, Dealer.complete_of_deal dealt, fun id a found => ?_, answers,
    fun id a f found computed => ?_, ?_⟩
  · obtain ⟨rfl, range, -, -, -, known⟩ := made id a found
    exact ⟨rfl, range, known⟩
  · rcases cases _ a found with ⟨share', computed', -⟩ | ⟨refused, fails⟩ | ⟨refused, wide⟩
    · rw [computed'] at computed
      cases computed
    · exact .inl ⟨Except.error.inj (computed.symm.trans refused), fails⟩
    · exact .inr ⟨Except.error.inj (computed.symm.trans refused), wide⟩
  · by_cases holds : c.verify = .ok true
    · obtain ⟨U, -, -, -, -, read, -⟩ := Ciphertext.verify_eq_true_iff.mp holds
      exact ⟨_, fun shares answered enough => staff.combine_eq dealt small read answered enough⟩
    · -- Nobody answers, so there is no quorum.
      refine ⟨.error .notCombined, fun shares answered enough => ?_⟩
      have positive : 0 < shares.size := (Nat.succ_pos _).trans_le enough
      obtain ⟨i, member⟩ := List.exists_mem_of_length_pos (Table.length_keys shares ▸ positive)
      obtain ⟨share, found⟩ := Table.mem_keys_iff.mp member
      obtain ⟨a, found, computed⟩ := answered i share found
      exact absurd (answers i a share found computed).1 holds

end Dealt

end Coordinator

end Quorum
