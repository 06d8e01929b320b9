import Quorum.Proofs.Society.Refusal

/-!
# The order of submissions does not matter

A meeting that expects shares for a ciphertext keeps exactly the right ones, each under its actor,
and whether a share is right does not depend on what the meeting keeps already. So if no actor has
two right shares among those that are submitted, the kept shares, their number, the quorum and the
payload are fixed by which shares are submitted: in which order, how often, and with which refused
shares between them makes no difference.

## Main definitions

* `Meeting.Offer` — a share that is submitted under an actor
* `Meeting.Offer.Right` — the share is the actor's own and is verified
* `Meeting.Expects` — a meeting that takes shares for a ciphertext
* `Meeting.offers` — the meeting after a list of submissions

## Main results

* `Meeting.Expects.refuses_iff` — what is refused is what is not right
* `Meeting.Expects.offers` — a meeting goes on expecting shares for the ciphertext
* `Meeting.Expects.get?_offers_of_right`, `Meeting.Expects.get?_offers_of_not_right` — what is kept
* `Meeting.Expects.decrypt_congr` — the outcome depends on nothing but the kept shares
* `Meeting.offers_in_any_order` — other orders, repetitions and refused shares in between
-/

namespace Quorum

namespace Meeting

/-- A share that is submitted under an actor. -/
structure Offer where
  /-- The actor under which the share is submitted. -/
  actor : ℤ
  /-- The share, which names an actor of its own. -/
  share : DecryptionShare
deriving DecidableEq

/-- The submission of a share for a ciphertext. -/
def Offer.call (c : Ciphertext) (o : Offer) : Call := .submit o.actor c o.share

/-- A share is right if it is submitted under the actor it names, who is one of the society, and is
verified with that actor's public share. -/
def Offer.Right (material : Material) (c : Ciphertext) (o : Offer) : Prop :=
  o.share.actor = o.actor ∧ (0 ≤ o.actor ∧ o.actor < material.parties) ∧
    ∃ publicShare, material.keys.publicShare o.actor = .ok publicShare ∧
      Threshold.verifyShare o.share publicShare c = .ok true

/-- A meeting takes shares for a ciphertext if it collects and is bound to that ciphertext or is
new. -/
structure Expects (m : Meeting) (c : Ciphertext) : Prop where
  elliptic : m.scheme = .elliptic
  collecting : m.state = .collecting
  bound : m.bound = some c ∨ m.bound = none ∧ m.shares = .empty

/-- The meeting after a list of submissions for one ciphertext. -/
def offers (m : Meeting) (c : Ciphertext) (os : List Offer) : Meeting :=
  m.calls (os.map (Offer.call c))

variable {m m' : Meeting} {c : Ciphertext} {o : Offer} {os : List Offer} {i : ℤ}

@[simp] theorem offers_nil : m.offers c [] = m := rfl

@[simp] theorem offers_cons : m.offers c (o :: os) = (m.call (o.call c)).offers c os := rfl

theorem expects_new (material : Material) (request : String) (c : Ciphertext) :
    (new material request .elliptic).Expects c :=
  ⟨rfl, rfl, .inr ⟨rfl, rfl⟩⟩

/-- A submission is admitted for its own ciphertext. -/
theorem admitted?_call (m : Meeting) (c : Ciphertext) (o : Offer) :
    m.admitted? (o.call c) = none ∨ m.admitted? (o.call c) = some c := by
  simp only [Offer.call, admitted?]
  split
  · split
    · exact .inr rfl
    · exact .inl rfl
  · exact .inl rfl

namespace Expects

variable (expects : m.Expects c)

include expects

/-- The meeting can be bound to the ciphertext. -/
theorem bind?_eq : m.bind? c = some { m with bound := some c } :=
  bind?_eq_some_iff.mpr ⟨expects.bound.symm.imp And.left id, rfl⟩

/-- A meeting with a quorum of kept shares is bound. -/
theorem bound_of_quorum (enough : m.material.quorum ≤ m.shares.size) : m.bound = some c := by
  rcases expects.bound with bound | ⟨-, empty⟩
  · exact bound
  · rw [empty] at enough
    exact absurd enough (Nat.not_succ_le_zero _)

/-- A right share is kept, as a new one or in place of an earlier one. -/
theorem submit_of_right (right : o.Right m.material c) :
    m.submit o.actor c o.share =
      (.ok (if m.shares.contains o.actor then .replaced else .accepted),
        { m with bound := some c, shares := m.shares.insert o.actor o.share }) := by
  obtain ⟨own, member, publicShare, known, verified⟩ := right
  have found := publicShare_eq_ok_iff.mpr ⟨member, known⟩
  simp [submit, store, expects.collecting, expects.bind?_eq, own, found, expects.elliptic,
    Scheme.elliptic, verified]

/-- A share is refused exactly if it is not right, whatever the meeting keeps. -/
theorem refuses_iff : m.Refuses (o.call c) ↔ ¬ o.Right m.material c := by
  constructor
  · intro refused right
    rw [Offer.call, Refuses, expects.submit_of_right right, IsRefusal] at refused
    split at refused <;> cases refused
  · intro wrong
    simp only [Offer.call, Refuses, submit, expects.collecting, expects.bind?_eq]
    split
    · trivial
    · next own =>
      cases known : m.publicShare o.actor with
      | error f => trivial
      | ok publicShare =>
        -- The origin is in order, so it is the verification that fails.
        obtain ⟨member, found⟩ := publicShare_eq_ok_iff.mp known
        simp only [store, own, if_false, expects.elliptic, Scheme.elliptic]
        split
        · trivial
        · trivial
        · next verified => exact absurd ⟨not_not.mp own, member, _, found, verified⟩ wrong

/-- What one submission does: a right share is kept, and a refused one at most binds the meeting. -/
theorem call_cases (o : Offer) :
    (o.Right m.material c ∧ m.call (o.call c) =
      { m with bound := some c, shares := m.shares.insert o.actor o.share }) ∨
    (¬ o.Right m.material c ∧
      (m.call (o.call c) = m ∨ m.call (o.call c) = { m with bound := some c })) := by
  by_cases right : o.Right m.material c
  · exact .inl ⟨right, congrArg Prod.snd (expects.submit_of_right right)⟩
  · have after := call_of_refuses expects.collecting (expects.refuses_iff.mpr right)
    refine .inr ⟨right, ?_⟩
    rw [after]
    rcases expects.bound with bound | ⟨unbound, -⟩
    · exact .inr (by rw [bound, Option.some_or, withBound])
    -- A new meeting is bound if the share is refused only by the verification.
    · rw [unbound, Option.none_or]
      rcases admitted?_call m c o with stray | admitted
      · exact .inl (by rw [stray, ← unbound, withBound])
      · exact .inr (by rw [admitted, withBound])

/-- A submission leaves the meeting expecting shares for the ciphertext. -/
theorem call (o : Offer) :
    (m.call (o.call c)).Expects c ∧ (m.call (o.call c)).material = m.material := by
  rcases expects.call_cases o with ⟨-, kept⟩ | ⟨-, same | bound⟩
  · rw [kept]
    exact ⟨⟨expects.elliptic, expects.collecting, .inl rfl⟩, rfl⟩
  · rw [same]
    exact ⟨expects, rfl⟩
  · rw [bound]
    exact ⟨⟨expects.elliptic, expects.collecting, .inl rfl⟩, rfl⟩

/-- What is kept under an index after a submission. -/
theorem get?_call_of_right (right : o.Right m.material c) (i : ℤ) :
    (m.call (o.call c)).shares.get? i =
      if i = o.actor then some o.share else m.shares.get? i := by
  rcases expects.call_cases o with ⟨-, kept⟩ | ⟨wrong, -⟩
  · rw [kept, Table.get?_insert]
  · exact absurd right wrong

/-- Nothing changes under an index for which no right share is submitted. -/
theorem get?_call_of_not_right (wrong : o.actor = i → ¬ o.Right m.material c) :
    (m.call (o.call c)).shares.get? i = m.shares.get? i := by
  rcases expects.call_cases o with ⟨right, kept⟩ | ⟨-, same | bound⟩
  · have other : i ≠ o.actor := fun same => wrong same.symm right
    rw [kept, Table.get?_insert, if_neg other]
  · rw [same]
  · rw [bound]

/-- A meeting goes on expecting shares for the ciphertext whatever is submitted for it. -/
theorem offers (os : List Offer) :
    (m.offers c os).Expects c ∧ (m.offers c os).material = m.material := by
  induction os generalizing m with
  | nil => exact ⟨expects, rfl⟩
  | cons o os ih =>
    obtain ⟨expects', material⟩ := expects.call o
    exact ⟨(ih expects').1, (ih expects').2.trans material⟩

/-- What is kept under an index stays if no right share is submitted for it. -/
theorem get?_offers_of_not_right (wrong : ∀ o ∈ os, o.actor = i → ¬ o.Right m.material c) :
    (m.offers c os).shares.get? i = m.shares.get? i := by
  induction os generalizing m with
  | nil => rfl
  | cons o os ih =>
    obtain ⟨first, rest⟩ := List.forall_mem_cons.mp wrong
    obtain ⟨expects', material⟩ := expects.call o
    rw [offers_cons, ih expects' (material ▸ rest), expects.get?_call_of_not_right first]

/-- If there is one right share for an index among those that are submitted, it is the one that is
kept in the end. -/
theorem get?_offers_of_right {share : DecryptionShare}
    (submitted : ∃ o ∈ os, o.actor = i ∧ o.Right m.material c)
    (unique : ∀ o ∈ os, o.actor = i → o.Right m.material c → o.share = share) :
    (m.offers c os).shares.get? i = some share := by
  induction os generalizing m with
  | nil =>
    obtain ⟨o, member, -⟩ := submitted
    cases member
  | cons o os ih =>
    obtain ⟨first, rest⟩ := List.forall_mem_cons.mp unique
    obtain ⟨expects', material⟩ := expects.call o
    rw [offers_cons]
    by_cases later : ∃ o ∈ os, o.actor = i ∧ o.Right m.material c
    · exact ih expects' (material ▸ later) (material ▸ rest)
    -- No later submission replaces the share of the first one.
    · have none : ∀ o ∈ os, o.actor = i → ¬ o.Right m.material c :=
        fun o member same right => later ⟨o, member, same, right⟩
      obtain ⟨o', member, same, right⟩ := submitted
      obtain rfl : o' = o :=
        (List.mem_cons.mp member).resolve_right fun member => none o' member same right
      rw [expects'.get?_offers_of_not_right (material ▸ none), expects.get?_call_of_right right,
        if_pos same.symm, first same right]

/-- Two lists with the same right shares, one for each actor, leave the same shares kept. -/
theorem get?_offers_congr {first second : List Offer}
    (unique : ∀ o ∈ first, ∀ o' ∈ first, o.Right m.material c → o'.Right m.material c →
      o.actor = o'.actor → o.share = o'.share)
    (contained : first ⊆ second) (known : ∀ o ∈ second, o.Right m.material c → o ∈ first) :
    (m.offers c second).shares.get? i = (m.offers c first).shares.get? i := by
  by_cases submitted : ∃ o ∈ first, o.actor = i ∧ o.Right m.material c
  · obtain ⟨o, member, actor, right⟩ := submitted
    have only : ∀ o' ∈ first, o'.actor = i → o'.Right m.material c → o'.share = o.share :=
      fun o' member' actor' right' =>
        unique o' member' o member right' right (actor'.trans actor.symm)
    rw [expects.get?_offers_of_right ⟨o, member, actor, right⟩ only,
      expects.get?_offers_of_right ⟨o, contained member, actor, right⟩
        fun o' member' actor' right' => only o' (known o' member' right') actor' right']
  · have none : ∀ o ∈ first, o.actor = i → ¬ o.Right m.material c :=
      fun o member actor right => submitted ⟨o, member, actor, right⟩
    rw [expects.get?_offers_of_not_right none,
      expects.get?_offers_of_not_right
        fun o member actor right => none o (known o member right) actor right]

/-- The payload, or the refusal to combine, depends on nothing but the kept shares. -/
theorem decrypt_congr (expects' : m'.Expects c) (material : m'.material = m.material)
    (same : ∀ i, m'.shares.get? i = m.shares.get? i) :
    m'.decrypt.1 = m.decrypt.1 ∧ m'.decrypt.2.state = m.decrypt.2.state := by
  have size := Table.size_eq_of_get?_eq same
  by_cases few : m.shares.size < m.material.quorum
  · rw [decrypt_of_few expects.collecting few,
      decrypt_of_few expects'.collecting (by rwa [size, material]), size, material,
      expects.collecting, expects'.collecting]
    exact ⟨rfl, rfl⟩
  · have enough := not_lt.mp few
    rw [(decrypt_of_quorum expects.elliptic expects.collecting (expects.bound_of_quorum enough)
        enough).1,
      (decrypt_of_quorum expects'.elliptic expects'.collecting
        (expects'.bound_of_quorum (by rwa [size, material])) (by rwa [size, material])).1,
      Threshold.combine_congr same, material]
    exact ⟨rfl, rfl⟩

end Expects

/-- A meeting keeps the right shares that are submitted, in place of what it has kept for their
actors before. Whatever the order of submissions, however often they are repeated and whatever
refused shares come between them, it keeps the same shares and combines them to the same outcome. -/
theorem offers_in_any_order {m : Meeting} {c : Ciphertext} {first second : List Offer}
    (expects : m.Expects c)
    (unique : ∀ o ∈ first, ∀ o' ∈ first, o.Right m.material c → o'.Right m.material c →
      o.actor = o'.actor → o.share = o'.share)
    (contained : first ⊆ second)
    (mixed : ∀ run o rest, second = run ++ o :: rest → o ∉ first →
      (m.offers c run).Refuses (o.call c)) :
    let one := m.offers c first
    let other := m.offers c second
    (∀ o ∈ first, o.Right m.material c → one.shares.get? o.actor = some o.share) ∧
      (∀ i, (∀ o ∈ first, o.actor = i → ¬ o.Right m.material c) →
        one.shares.get? i = m.shares.get? i) ∧
      (∀ i, other.shares.get? i = one.shares.get? i) ∧
      other.shares.size = one.shares.size ∧
      other.hasQuorum = one.hasQuorum ∧
      other.decrypt.1 = one.decrypt.1 ∧ other.decrypt.2.state = one.decrypt.2.state := by
  intro one other
  obtain ⟨expectsOne, materialOne⟩ := expects.offers first
  obtain ⟨expectsOther, materialOther⟩ := expects.offers second
  have material : other.material = one.material := materialOther.trans materialOne.symm
  -- The right shares of the second list are those of the first one.
  have known : ∀ o ∈ second, o.Right m.material c → o ∈ first := by
    intro o member right
    by_contra stray
    obtain ⟨run, rest, split⟩ := List.append_of_mem member
    obtain ⟨expectsRun, materialRun⟩ := expects.offers run
    exact expectsRun.refuses_iff.mp (mixed run o rest split stray) (materialRun ▸ right)
  have same : ∀ i, other.shares.get? i = one.shares.get? i :=
    fun i => expects.get?_offers_congr unique contained known
  have size := Table.size_eq_of_get?_eq same
  refine ⟨?_, fun i none => expects.get?_offers_of_not_right none, same, size, ?_,
    expectsOne.decrypt_congr expectsOther material same⟩
  · intro o member right
    refine expects.get?_offers_of_right ⟨o, member, rfl, right⟩ fun o' member' actor' right' => ?_
    exact unique o' member' o member right' right actor'
  · rw [hasQuorum, hasQuorum, size, material]

/-- Two right shares make the same meeting if they come in the other order, one of them twice and
after it has been refused for the other actor. -/
theorem offers_in_any_order_of_two :
    ∃ material shares, Dealer.deal 2 1 (fun _ => 0) = .ok (material, shares) ∧
      ∃ (c : Ciphertext) (s₀ s₁ : DecryptionShare),
        let m := new material "r" .elliptic
        let first := [⟨0, s₀⟩, ⟨1, s₁⟩]
        let second := [⟨1, s₁⟩, ⟨1, s₀⟩, ⟨0, s₀⟩, ⟨1, s₁⟩]
        m.Expects c ∧ (∀ o ∈ first, o.Right material c) ∧
          (m.offers c [⟨1, s₁⟩]).Refuses (Offer.call c ⟨1, s₀⟩) ∧
          (m.offers c first).hasQuorum = true ∧
          (∀ i, (m.offers c second).shares.get? i = (m.offers c first).shares.get? i) ∧
          (m.offers c second).decrypt.1 = (m.offers c first).decrypt.1 := by
  obtain ⟨material, shares, dealt⟩ := Gathering.exists_deal_of_zero_draws
  obtain ⟨c, holds, -⟩ := Ciphertext.exists_verify_of_empty_payload
  obtain ⟨secrets, generated, -, -⟩ := Dealer.deal_eq_ok_iff.mp dealt
  have parties : material.parties = 2 := by exact_mod_cast (Dealer.quorum_of_deal dealt).2
  have quorum : material.quorum = 2 := by exact_mod_cast (Dealer.quorum_of_deal dealt).1
  have polynomial := Threshold.dealt_of_generate generated (by decide)
  obtain ⟨s₀, public₀, actor₀, known₀, verified₀⟩ :=
    polynomial.exists_share (by decide : (0 : ℤ) ≤ 0) (by decide +kernel) holds
  obtain ⟨s₁, public₁, actor₁, known₁, verified₁⟩ :=
    polynomial.exists_share (by decide : (0 : ℤ) ≤ 1) (by decide +kernel) holds
  refine ⟨material, shares, dealt, c, s₀, s₁, ?_⟩
  intro m first second
  have expects : m.Expects c := expects_new material "r" c
  have right₀ : Offer.Right material c ⟨0, s₀⟩ :=
    ⟨actor₀, by simp [parties], public₀, known₀, verified₀⟩
  have right₁ : Offer.Right material c ⟨1, s₁⟩ :=
    ⟨actor₁, by simp [parties], public₁, known₁, verified₁⟩
  have borrowed : ¬ Offer.Right material c ⟨1, s₀⟩ := by
    intro right
    have own : s₀.actor = 1 := right.1
    omega
  have unique : ∀ o ∈ first, ∀ o' ∈ first, o.Right material c → o'.Right material c →
      o.actor = o'.actor → o.share = o'.share := by
    simp [first]
  have contained : first ⊆ second := by simp [first, second]
  have mixed : ∀ run o rest, second = run ++ o :: rest → o ∉ first →
      (m.offers c run).Refuses (o.call c) := by
    intro run o rest split stray
    obtain ⟨expectsRun, materialRun⟩ := expects.offers run
    obtain rfl : o = ⟨1, s₀⟩ := by
      have member : o ∈ second := split ▸ List.mem_append_right _ List.mem_cons_self
      simp only [first, second, List.mem_cons, List.not_mem_nil, or_false] at member stray
      tauto
    exact expectsRun.refuses_iff.mpr (materialRun ▸ borrowed)
  obtain ⟨kept, -, same, -, -, decrypted, -⟩ :=
    offers_in_any_order expects unique contained mixed
  have refused : (m.offers c [⟨1, s₁⟩]).Refuses (Offer.call c ⟨1, s₀⟩) :=
    (expects.offers _).1.refuses_iff.mpr ((expects.offers _).2 ▸ borrowed)
  -- Both actors have a kept share, so there are at least two.
  have kept₀ : (m.offers c first).shares.get? 0 = some s₀ := kept ⟨0, s₀⟩ (by simp [first]) right₀
  have kept₁ : (m.offers c first).shares.get? 1 = some s₁ := kept ⟨1, s₁⟩ (by simp [first]) right₁
  have both : [0, 1] ⊆ (m.offers c first).shares.keys := by
    simp [Table.mem_keys_iff, kept₀, kept₁]
  have enough : (m.offers c first).hasQuorum = true := by
    have count := (List.subperm_of_subset (by decide : [(0 : ℤ), 1].Nodup) both).length_le
    rw [Table.length_keys] at count
    rw [hasQuorum, (expects.offers first).2, decide_eq_true_iff]
    exact quorum.trans_le count
  exact ⟨expects, by simp [first, right₀, right₁], refused, enough, same, decrypted⟩

end Meeting

end Quorum
