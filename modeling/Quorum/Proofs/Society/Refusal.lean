import Quorum.Proofs.Society.Lifecycle
import Quorum.Proofs.Society.Request

/-!
# What a refused share changes

A meeting looks at an offered share in two stages. First the one who offers it is checked: there
must be a ciphertext, and the share must come from an actor of the society. Then the meeting is
bound, and only after that the share is computed and verified. A refusal in the first stage leaves
no trace. A refusal in the second stage changes nothing that is kept, but if no ciphertext was
bound before, the ciphertext of the refused share stays bound.

## Main definitions

* `Meeting.Refuses` — a call that offers a share which is not kept
* `Meeting.admitted?` — the ciphertext of a share whose origin is in order

## Main results

* `Meeting.call_of_refuses` — the meeting after a refusal
* `Meeting.refusal_keeps_meeting` — when a refusal leaves the meeting as it was
* `Meeting.refused_share_shuts_out` — a refused share that shuts a right one out
-/

namespace Quorum

namespace Meeting

/-- Whether an offer comes to nothing: it fails, or the share is dropped. -/
def IsRefusal : Outcome Reception → Prop
  | .error _ => True
  | .ok reception => reception = .mismatched

/-- Whether a call offers a share that is not kept. -/
def Refuses (m : Meeting) : Call → Prop
  | .accept actor => IsRefusal (m.accept actor).1
  | .submit id c share => IsRefusal (m.submit id c share).1
  | .decrypt => False

/-- The ciphertext of an offered share, if the one who offers it is in order: there is a ciphertext,
the actor belongs to the society, and the share or the public share is the actor's. -/
def admitted? (m : Meeting) : Call → Option Ciphertext
  | .accept actor =>
    match m.publicShare actor.id with
    | .ok publicShare =>
      if actor.share.publicShare = publicShare then actor.pending? m.request else none
    | .error _ => none
  | .submit id c share =>
    match m.publicShare id with
    | .ok _ => if share.actor = id then some c else none
    | .error _ => none
  | .decrypt => none

/-- The meeting with another bound ciphertext. -/
def withBound (m : Meeting) (bound : Option Ciphertext) : Meeting := { m with bound := bound }

variable {m : Meeting}

/-- Storing a share that is refused changes nothing. -/
theorem store_of_refused {id : ℤ} {publicShare : Bytes} {share : DecryptionShare} {c : Ciphertext}
    (refused : IsRefusal (m.store id publicShare share c).1) :
    (m.store id publicShare share c).2 = m := by
  unfold store at refused ⊢
  split
  · rfl
  · next own =>
    rw [if_neg own] at refused
    split
    · rfl
    · rfl
    · next right =>
      -- A share that is right is kept, as a new one or in place of an earlier one.
      rw [right] at refused
      simp only [IsRefusal] at refused
      split at refused <;> cases refused

/-- A ciphertext that can be bound is the bound one afterwards. -/
theorem eq_withBound_of_bind? {m' : Meeting} {c : Ciphertext} (binding : m.bind? c = some m') :
    m' = m.withBound (m.bound.or (some c)) := by
  obtain ⟨free, rfl⟩ := bind?_eq_some_iff.mp binding
  rcases free with none | same
  · rw [none, Option.none_or, withBound]
  · rw [same, Option.some_or, withBound]

/-- A ciphertext that cannot be bound leaves the meeting as it is. -/
theorem withBound_of_bind? {c : Ciphertext} (other : m.bind? c = none) :
    m.withBound (m.bound.or (some c)) = m := by
  unfold bind? at other
  split at other
  · cases other
  · next b bound => rw [bound, Option.some_or, ← bound, withBound]

theorem withBound_or_none : m.withBound (m.bound.or none) = m := by
  rw [Option.or_none, withBound]

/-- The ciphertext of an actor is admitted if it waits and the actor's public share is right. -/
theorem admitted?_accept {actor : Actor} {c : Ciphertext} {publicShare : Bytes}
    (pending : actor.pending? m.request = some c)
    (known : m.publicShare actor.id = .ok publicShare) :
    m.admitted? (.accept actor) =
      if actor.share.publicShare = publicShare then some c else none := by
  simp only [admitted?, known, pending]

theorem accept_of_refused {actor : Actor} (collecting : m.state = .collecting)
    (refused : IsRefusal (m.accept actor).1) :
    (m.accept actor).2.1 = m.withBound (m.bound.or (m.admitted? (.accept actor))) := by
  cases pending : actor.pending? m.request with
  | none =>
    have nothing : m.admitted? (.accept actor) = none := by
      simp only [admitted?, pending, ite_self]
      split <;> rfl
    simp only [accept, collecting, Actor.take, pending, nothing, withBound_or_none]
  | some c =>
    simp only [accept, collecting, Actor.take, pending] at refused ⊢
    simp only [consider, show (actor.discard m.request).id = actor.id from rfl,
      show (actor.discard m.request).share = actor.share from rfl] at refused ⊢
    cases known : m.publicShare actor.id with
    | error f => simp only [admitted?, known, withBound_or_none]
    | ok publicShare =>
      rw [admitted?_accept pending known]
      simp only [known] at refused ⊢
      by_cases own : actor.share.publicShare = publicShare
      · simp only [own, ne_eq, not_true_eq_false, if_false, if_true] at refused ⊢
        cases binding : m.bind? c with
        | none => simp only [withBound_of_bind? binding]
        | some m' =>
          rw [← eq_withBound_of_bind? binding]
          simp only [binding] at refused ⊢
          cases computed : (actor.discard m.request).compute c with
          | error f => rfl
          | ok share =>
            rw [computed] at refused
            exact store_of_refused refused
      · simp only [own, ne_eq, not_false_eq_true, if_true, if_false, withBound_or_none]

theorem submit_of_refused {id : ℤ} {c : Ciphertext} {share : DecryptionShare}
    (collecting : m.state = .collecting) (refused : IsRefusal (m.submit id c share).1) :
    (m.submit id c share).2 = m.withBound (m.bound.or (m.admitted? (.submit id c share))) := by
  simp only [submit, collecting, admitted?] at refused ⊢
  cases known : m.publicShare id with
  | error f =>
    simp only [withBound_or_none]
    split <;> rfl
  | ok publicShare =>
    by_cases own : share.actor = id
    · simp only [own, known, ne_eq, not_true_eq_false, if_false, if_true] at refused ⊢
      cases binding : m.bind? c with
      | none => simp only [withBound_of_bind? binding]
      | some m' =>
        rw [← eq_withBound_of_bind? binding]
        simp only [binding] at refused ⊢
        exact store_of_refused refused
    · simp only [own, ne_eq, not_false_eq_true, if_true, if_false, withBound_or_none]

/-- A refusal changes nothing but the ciphertext that the meeting is bound to: an unbound meeting is
bound to the ciphertext of a refused share whose origin is in order. -/
theorem call_of_refuses {x : Call} (collecting : m.state = .collecting) (refused : m.Refuses x) :
    m.call x = m.withBound (m.bound.or (m.admitted? x)) := by
  cases x with
  | accept actor => exact accept_of_refused collecting refused
  | submit id c share => exact submit_of_refused collecting refused
  | decrypt => cases refused

/-- What a refusal leaves of a meeting that collects shares: the state and the kept shares stay, and
so does the whole meeting if it was bound before or if the share was refused for its origin. What is
refused only when its share is computed or verified binds a meeting that was not bound. -/
theorem refusal_keeps_meeting (m : Meeting) (x : Call) (collecting : m.state = .collecting)
    (refused : m.Refuses x) :
    (m.call x).state = m.state ∧ (m.call x).shares = m.shares ∧
      (m.call x).bound = m.bound.or (m.admitted? x) ∧
      (m.call x = m ↔ m.bound ≠ none ∨ m.admitted? x = none) := by
  have after := call_of_refuses collecting refused
  refine ⟨by rw [after, withBound], by rw [after, withBound], by rw [after, withBound], ?_⟩
  constructor
  · intro same
    by_contra late
    push Not at late
    obtain ⟨unbound, admitted⟩ := late
    rw [after, unbound, Option.none_or] at same
    exact admitted ((congrArg bound same).trans unbound)
  · rintro (bound | notAdmitted)
    · obtain ⟨b, bound⟩ := Option.ne_none_iff_exists'.mp bound
      rw [after, bound, Option.some_or, ← bound, withBound]
    · rw [after, notAdmitted, withBound_or_none]

/-- A share that is submitted for another actor is refused and leaves no trace. -/
theorem refusal_of_borrowed_share :
    ∃ material shares, Dealer.deal 2 1 (fun _ => 0) = .ok (material, shares) ∧
      let m := new material "r" .elliptic
      let x := Call.submit 1 default { (default : DecryptionShare) with actor := 0 }
      m.state = .collecting ∧ m.Refuses x ∧ m.call x = m := by
  obtain ⟨material, shares, dealt⟩ := Gathering.exists_deal_of_zero_draws
  refine ⟨material, shares, dealt, ?_⟩
  intro m x
  have collecting : m.state = .collecting := rfl
  have refused : m.Refuses x := by simp [Refuses, IsRefusal, submit, m, x, new]
  have notAdmitted : m.admitted? x = none := by
    simp only [admitted?, x]
    split <;> rfl
  exact ⟨collecting, refused,
    (refusal_keeps_meeting m x collecting refused).2.2.2.mpr (.inr notAdmitted)⟩

/-- A refused share can shut out a right one: it binds a new meeting to its ciphertext, and the
share for another ciphertext, which would have been accepted before, is dropped. -/
theorem refused_share_shuts_out :
    ∃ material shares, Dealer.deal 2 1 (fun _ => 0) = .ok (material, shares) ∧
      ∃ (wrong right : DecryptionShare) (stray c : Ciphertext),
        let m := new material "r" .elliptic
        (m.submit 1 stray wrong).1 = .error (.shareRejected 1 "verification failed") ∧
        m.bound = none ∧ (m.submit 1 stray wrong).2.bound = some stray ∧
        (m.submit 0 c right).1 = .ok .accepted ∧
        ((m.submit 1 stray wrong).2.submit 0 c right).1 = .ok .mismatched := by
  obtain ⟨material, shares, dealt⟩ := Gathering.exists_deal_of_zero_draws
  obtain ⟨c, holds, -⟩ := Ciphertext.exists_verify_of_empty_payload
  obtain ⟨secrets, generated, -, -⟩ := Dealer.deal_eq_ok_iff.mp dealt
  have parties : material.parties = 2 := by exact_mod_cast (Dealer.quorum_of_deal dealt).2
  have polynomial := Threshold.dealt_of_generate generated (by decide)
  obtain ⟨right, publicShare, actor, known, verified⟩ :=
    polynomial.exists_share (by decide : (0 : ℤ) ≤ 0) (by decide +kernel) holds
  obtain ⟨other, knownOther⟩ := Dealer.complete_of_deal dealt 1 (by decide) (by omega)
  -- A ciphertext without any field is not well-formed, so no share for it is right.
  have malformed : (default : Ciphertext).verify = .ok false := rfl
  have different : c ≠ default := by
    rintro rfl
    rw [malformed] at holds
    cases holds
  set wrong : DecryptionShare := { (default : DecryptionShare) with actor := 1 }
  have notVerified : Threshold.verifyShare wrong other default = .ok false := rfl
  refine ⟨material, shares, dealt, wrong, right, default, c, ?_, rfl, ?_, ?_, ?_⟩
  · simp [submit, new, Meeting.publicShare, bind?, store, Scheme.elliptic, parties, wrong,
      knownOther, notVerified]
  · simp [submit, new, Meeting.publicShare, bind?, store, Scheme.elliptic, parties, wrong,
      knownOther, notVerified]
  · simp [submit, new, Meeting.publicShare, bind?, store, Scheme.elliptic, parties, actor, known,
      verified, Table.contains]
  · simp [submit, new, Meeting.publicShare, bind?, store, Scheme.elliptic, parties, wrong, actor,
      known, knownOther, notVerified, different]

end Meeting

end Quorum
