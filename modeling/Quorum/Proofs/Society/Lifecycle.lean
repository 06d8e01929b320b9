import Quorum.Proofs.Society.Meeting
import Quorum.Proofs.Threshold.Combine

/-!
# The life of a meeting

A meeting collects until its shares are combined. Combining too early is refused and changes
nothing; combining a quorum ends the meeting, with a payload or with the refusal to combine. A
meeting that has ended refuses every call. So a meeting hands out at most one payload, and only one
that a quorum of actors vouched for.

## Main definitions

* `Meeting.Answer`, `Meeting.answer` — what a call returns
* `Meeting.answers` — what a run of calls returns

## Main results

* `Meeting.decrypt_of_few`, `Meeting.decrypt_of_quorum` — combining early and in time
* `Meeting.state_call_of_ne` — only combining a quorum changes the state
* `Meeting.call_of_resolved` — a meeting that has ended refuses every call
* `Meeting.countP_answers_le_one` — at most one payload in a run
* `Meeting.calls_lifecycle` — the life of a meeting over every run of calls
-/

namespace Quorum

namespace Meeting

/-- What a call returns when it does not fail. -/
inductive Answer where
  /-- A share was offered. -/
  | received (reception : Reception)
  /-- The kept shares were combined. -/
  | payload (payload : Bytes)
deriving DecidableEq

/-- What a call returns or fails with. -/
def answer (m : Meeting) : Call → Outcome Answer
  | .accept actor => (m.accept actor).1.map .received
  | .submit id c share => (m.submit id c share).1.map .received
  | .decrypt => m.decrypt.1.map .payload

/-- What the calls of a run return or fail with, one after another. -/
def answers (m : Meeting) : List Call → List (Outcome Answer)
  | [] => []
  | x :: run => m.answer x :: (m.call x).answers run

/-- Whether an answer hands out a payload. -/
def Answer.isPayload : Outcome Answer → Bool
  | .ok (.payload _) => true
  | _ => false

variable {m m' : Meeting}

@[simp] theorem calls_nil (m : Meeting) : m.calls [] = m := rfl

@[simp] theorem calls_cons (m : Meeting) (x : Call) (run : List Call) :
    m.calls (x :: run) = (m.call x).calls run := rfl

section Offering

/-! ### Offering a share leaves the state alone -/

@[simp] theorem state_store (m : Meeting) (id : ℤ) (publicShare : Bytes) (share : DecryptionShare)
    (c : Ciphertext) : (m.store id publicShare share c).2.state = m.state := by
  unfold store
  split
  · rfl
  · split <;> rfl

theorem state_of_bind? {c : Ciphertext} (bound : m.bind? c = some m') : m'.state = m.state := by
  obtain ⟨-, rfl⟩ := bind?_eq_some_iff.mp bound
  rfl

theorem state_consider (m : Meeting) (a : Actor) (c : Ciphertext) :
    (m.consider a c).2.state = m.state := by
  unfold consider
  split
  · rfl
  · split
    · rfl
    · split
      · rfl
      · next m' bound =>
        split
        · exact state_of_bind? bound
        · rw [state_store, state_of_bind? bound]

theorem state_accept (m : Meeting) (a : Actor) : (m.accept a).2.1.state = m.state := by
  unfold accept
  split
  · rfl
  · split
    · rfl
    · exact state_consider m _ _

theorem state_submit (m : Meeting) (id : ℤ) (c : Ciphertext) (share : DecryptionShare) :
    (m.submit id c share).2.state = m.state := by
  unfold submit
  split
  · rfl
  · split
    · rfl
    · split
      · rfl
      · split
        · rfl
        · next m' bound => rw [state_store, state_of_bind? bound]

end Offering

section Combining

/-- Combining too few shares is refused and changes nothing. -/
theorem decrypt_of_few (collecting : m.state = .collecting)
    (few : m.shares.size < m.material.quorum) :
    m.decrypt = (.error (.insufficient m.shares.size m.material.quorum), m) := by
  simp only [decrypt, collecting, few, if_true]
  split <;> rfl

/-- A payload is handed out by a collecting meeting with a quorum, which ends with it. -/
theorem of_decrypt_eq_ok {payload : Bytes} (isOk : m.decrypt.1 = .ok payload) :
    m.state = .collecting ∧ m.material.quorum ≤ m.shares.size ∧
      m.decrypt.2.state = .resolved := by
  unfold decrypt at isOk ⊢
  split at isOk
  · cases isOk
  · next collecting =>
    split at isOk
    · cases isOk
    · next c bound =>
      split at isOk
      · cases isOk
      · next enough =>
        refine ⟨collecting, not_lt.mp enough, ?_⟩
        simp only [if_neg enough]
        -- Only an outcome that is a payload concludes with one.
        generalize m.scheme.combine m.shares m.material.keys c = combined at isOk ⊢
        cases combined with
        | ok payload => rfl
        | error f =>
          simp only [conclude] at isOk
          split at isOk
          · cases isOk
          · split at isOk <;> cases isOk

/-- A meeting with a kept share is bound. -/
theorem Sound.exists_bound (sound : m.Sound) (nonempty : 0 < m.shares.size) :
    ∃ c, m.bound = some c := by
  obtain ⟨i, member⟩ := List.exists_mem_of_length_pos (Table.length_keys m.shares ▸ nonempty)
  obtain ⟨share, found⟩ := Table.mem_keys_iff.mp member
  obtain ⟨-, -, -, c, -, bound, -⟩ := sound i share found
  exact ⟨c, bound⟩

/-- Combining a quorum ends the meeting with a payload or with the refusal to combine. -/
theorem decrypt_of_quorum {c : Ciphertext} (elliptic : m.scheme = .elliptic)
    (collecting : m.state = .collecting) (bound : m.bound = some c)
    (enough : m.material.quorum ≤ m.shares.size) :
    m.decrypt = (Threshold.combine m.shares m.material.keys c, { m with state := .resolved }) ∧
      ((∃ payload, Threshold.combine m.shares m.material.keys c = .ok payload) ∨
        Threshold.combine m.shares m.material.keys c = .error .notCombined) := by
  -- The scheme counts by the threshold of the key set, which is that of the material.
  have ends : (∃ payload, Threshold.combine m.shares m.material.keys c = .ok payload) ∨
      Threshold.combine m.shares m.material.keys c = .error .notCombined :=
    Threshold.combine_isOk_or_notCombined enough
  refine ⟨?_, ends⟩
  have combines : m.scheme.combine = Threshold.combine := by rw [elliptic, Scheme.elliptic]
  simp only [decrypt, collecting, bound, if_neg (not_lt.mpr enough), combines]
  rcases ends with ⟨payload, isOk⟩ | refused
  · simp only [isOk, conclude, bound]
  · simp only [refused, conclude, true_or, if_true, bound]

/-- Only combining a quorum changes the state. -/
theorem state_call_of_ne {x : Call} (changed : (m.call x).state ≠ m.state) :
    x = .decrypt ∧ m.state = .collecting ∧ m.material.quorum ≤ m.shares.size := by
  cases x with
  | accept actor => exact absurd (state_accept m actor) changed
  | submit id c share => exact absurd (state_submit m id c share) changed
  | decrypt =>
    have collecting : m.state = .collecting := by
      cases state : m.state with
      | collecting => rfl
      | resolved => exact absurd (by simp [call, decrypt, state]) changed
    refine ⟨rfl, collecting, ?_⟩
    by_contra few
    rw [call, decrypt_of_few collecting (not_le.mp few)] at changed
    exact changed rfl

end Combining

section Ended

variable (ended : m.state = .resolved)

include ended

/-- A meeting that has ended refuses every call, and neither it nor an actor's inbox changes. -/
theorem call_of_resolved :
    (∀ actor, m.accept actor = (.error (.resolved m.request), m, actor)) ∧
      (∀ id c share, m.submit id c share = (.error (.resolved m.request), m)) ∧
      m.decrypt = (.error (.resolved m.request), m) := by
  refine ⟨?_, ?_, ?_⟩
  · intro actor
    simp only [accept, ended]
  · intro id c share
    simp only [submit, ended]
  · simp only [decrypt, ended]

theorem answer_of_resolved (x : Call) :
    m.answer x = .error (.resolved m.request) ∧ m.call x = m := by
  obtain ⟨accepted, submitted, decrypted⟩ := call_of_resolved ended
  cases x with
  | accept actor =>
    rw [answer, call, accepted]
    exact ⟨rfl, rfl⟩
  | submit id c share =>
    rw [answer, call, submitted]
    exact ⟨rfl, rfl⟩
  | decrypt =>
    rw [answer, call, decrypted]
    exact ⟨rfl, rfl⟩

/-- A meeting that has ended refuses every run of calls and stays as it is. -/
theorem answers_of_resolved (run : List Call) :
    m.calls run = m ∧ m.answers run = run.map fun _ => .error (.resolved m.request) := by
  induction run with
  | nil => exact ⟨rfl, rfl⟩
  | cons x run ih =>
    obtain ⟨refused, same⟩ := answer_of_resolved ended x
    rw [calls_cons, answers, same, refused]
    exact ⟨ih.1, congrArg (_ :: ·) ih.2⟩

end Ended

/-- The request that a meeting serves stays the same. -/
theorem request_calls (m : Meeting) (run : List Call) : (m.calls run).request = m.request := by
  induction run generalizing m with
  | nil => rfl
  | cons x run ih =>
    rw [calls_cons, ih]
    have step := step_call m x
    generalize m.call x = m' at step ⊢
    cases step <;> rfl

/-- Combining too early, however often, leaves the rest of a run as it would have been. -/
theorem calls_replicate_decrypt (collecting : m.state = .collecting)
    (few : m.shares.size < m.material.quorum) (n : ℕ) (after : List Call) :
    m.calls (List.replicate n .decrypt ++ after) = m.calls after ∧
      m.answers (List.replicate n .decrypt ++ after) =
        List.replicate n (.error (.insufficient m.shares.size m.material.quorum)) ++
          m.answers after := by
  have refused := decrypt_of_few collecting few
  have same : m.call .decrypt = m := by rw [call, refused]
  have answered : m.answer .decrypt =
      .error (.insufficient m.shares.size m.material.quorum) := by
    rw [answer, refused]
    rfl
  induction n with
  | zero => exact ⟨rfl, rfl⟩
  | succ n ih =>
    rw [List.replicate_succ, List.cons_append, calls_cons, answers, same, answered,
      List.replicate_succ, List.cons_append]
    exact ⟨ih.1, congrArg (_ :: ·) ih.2⟩

theorem eq_decrypt_of_answer {x : Call} {payload : Bytes}
    (handed : m.answer x = .ok (.payload payload)) : x = .decrypt ∧ m.decrypt.1 = .ok payload := by
  cases x with
  | accept actor =>
    rw [answer] at handed
    cases accepted : (m.accept actor).1 <;> rw [accepted] at handed <;> cases handed
  | submit id c share =>
    rw [answer] at handed
    cases submitted : (m.submit id c share).1 <;> rw [submitted] at handed <;> cases handed
  | decrypt =>
    rw [answer] at handed
    cases decrypted : m.decrypt.1 with
    | error f =>
      rw [decrypted] at handed
      cases handed
    | ok other =>
      rw [decrypted] at handed
      cases handed
      exact ⟨rfl, rfl⟩

/-- A run hands out at most one payload. -/
theorem countP_answers_le_one (m : Meeting) (run : List Call) :
    (m.answers run).countP Answer.isPayload ≤ 1 := by
  induction run generalizing m with
  | nil => exact Nat.zero_le 1
  | cons x run ih =>
    rw [answers, List.countP_cons]
    split
    · next handed =>
      -- The call that hands out a payload ends the meeting, which then refuses every other call.
      obtain ⟨payload, given⟩ : ∃ payload, m.answer x = .ok (.payload payload) := by
        unfold Answer.isPayload at handed
        split at handed
        · exact ⟨_, by assumption⟩
        · cases handed
      obtain ⟨rfl, isOk⟩ := eq_decrypt_of_answer given
      have ended : (m.call .decrypt).state = .resolved := (of_decrypt_eq_ok isOk).2.2
      rw [(answers_of_resolved ended run).2, List.countP_eq_zero.mpr]
      rw [List.forall_mem_map]
      exact fun _ _ => Bool.false_ne_true
    · exact ih (m.call x)

/-- The life of a meeting after any run of calls `before`, with any calls `after` that. While it
collects, combining fewer shares than the quorum is refused and leaves no trace, and combining a
quorum ends it as the scheme combines. Nothing else changes its state, and once it has ended it
refuses every call. At most one payload is handed out, and only for a quorum of distinct actors. -/
theorem calls_lifecycle (material : Material) (request : String) (before after : List Call) :
    let fresh := new material request .elliptic
    let m := fresh.calls before
    let count := m.shares.size
    let need := material.quorum
    -- Combining too early.
    (m.state = .collecting → count < need →
      m.decrypt = (.error (.insufficient count need), m) ∧
      ∀ n, m.calls (List.replicate n .decrypt ++ after) = m.calls after ∧
        m.answers (List.replicate n .decrypt ++ after) =
          List.replicate n (.error (.insufficient count need)) ++ m.answers after) ∧
    -- Combining a quorum.
    (m.state = .collecting → need ≤ count → ∃ c, m.bound = some c ∧
      m.decrypt = (Threshold.combine m.shares material.keys c, { m with state := .resolved }) ∧
      ((∃ payload, m.decrypt.1 = .ok payload) ∨ m.decrypt.1 = .error .notCombined)) ∧
    (∀ x, (m.call x).state ≠ m.state → x = .decrypt ∧ m.state = .collecting ∧ need ≤ count) ∧
    -- After the end.
    (m.state = .resolved →
      (∀ actor, m.accept actor = (.error (.resolved request), m, actor)) ∧
      (∀ id c share, m.submit id c share = (.error (.resolved request), m)) ∧
      m.decrypt = (.error (.resolved request), m) ∧
      m.calls after = m ∧ m.answers after = after.map fun _ => .error (.resolved request)) ∧
    -- Payloads.
    (fresh.answers (before ++ after)).countP Answer.isPayload ≤ 1 ∧
    (∀ x payload, m.answer x = .ok (.payload payload) → x = .decrypt ∧ need ≤ count ∧
      m.shares.keys.Nodup ∧ m.shares.keys.length = count ∧
      (∀ i ∈ m.shares.keys, 0 ≤ i ∧ i < material.parties) ∧
      ∃ c, m.bound = some c ∧ Threshold.combine m.shares material.keys c = .ok payload) := by
  intro fresh m count need
  obtain ⟨sound, fromFresh⟩ := sound_calls (sound_new material request .elliptic) before
  have same : m.material = material := fromFresh.material
  have elliptic : m.scheme = .elliptic := fromFresh.scheme
  have served : m.request = request := request_calls fresh before
  have few_iff : count < need ↔ m.shares.size < m.material.quorum := by rw [same]
  have enough_iff : need ≤ count ↔ m.material.quorum ≤ m.shares.size := by rw [same]
  -- A quorum of kept shares is combined, in terms of the material of the start.
  have combined (collecting : m.state = .collecting) (enough : need ≤ count) :
      ∃ c, m.bound = some c ∧
        m.decrypt = (Threshold.combine m.shares material.keys c, { m with state := .resolved }) ∧
        ((∃ payload, m.decrypt.1 = .ok payload) ∨ m.decrypt.1 = .error .notCombined) := by
    have positive : 0 < material.quorum := Nat.succ_pos _
    obtain ⟨c, bound⟩ := sound.exists_bound (positive.trans_le enough)
    obtain ⟨ended, ends⟩ := decrypt_of_quorum elliptic collecting bound (enough_iff.mp enough)
    refine ⟨c, bound, same ▸ ended, ?_⟩
    rw [ended]
    exact ends
  refine ⟨?_, combined, ?_, ?_, countP_answers_le_one fresh _, ?_⟩
  · intro collecting few
    have refused := decrypt_of_few collecting (few_iff.mp few)
    have traceless := calls_replicate_decrypt collecting (few_iff.mp few)
    rw [same] at refused traceless
    exact ⟨refused, fun n => traceless n after⟩
  · intro x changed
    obtain ⟨isDecrypt, collecting, enough⟩ := state_call_of_ne changed
    exact ⟨isDecrypt, collecting, enough_iff.mpr enough⟩
  · intro ended
    obtain ⟨accepted, submitted, decrypted⟩ := call_of_resolved ended
    have refused := answers_of_resolved ended after
    rw [served] at accepted submitted decrypted refused
    exact ⟨accepted, submitted, decrypted, refused⟩
  · intro x payload handed
    obtain ⟨rfl, isOk⟩ := eq_decrypt_of_answer handed
    obtain ⟨collecting, enough, -⟩ := of_decrypt_eq_ok isOk
    obtain ⟨c, bound, ended, -⟩ := combined collecting (enough_iff.mpr enough)
    refine ⟨rfl, enough_iff.mpr enough, m.shares.nodup_keys, Table.length_keys _, ?_, c, bound, ?_⟩
    · intro i member
      obtain ⟨share, found⟩ := Table.mem_keys_iff.mp member
      obtain ⟨nonneg, lt, -⟩ := sound i share found
      exact ⟨nonneg, same ▸ lt⟩
    · rw [ended] at isOk
      exact isOk

end Meeting

end Quorum
