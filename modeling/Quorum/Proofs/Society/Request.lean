import Quorum.Proofs.Society.Dealer
import Quorum.Proofs.Society.Meeting
import Quorum.Proofs.Threshold.Combine
import Quorum.Society.Request

/-!
# What a request counts and how it ends

Requests to actors are settled in an arbitrary order and in arbitrary batches: each one by any
answer or failure, or never. A request counts exactly the asked actors that answered it with a right
share, the last one of each, and nothing that arrives can bind its meeting to another ciphertext.
With a quorum the outcome is that of combining the counted shares; without one it depends on
whether a request is still out.

The check of a share needs the digest of the ciphertext, which does not exist when a field has
`2 ^ 32` bytes or more. The first answer that is checked then ends the request.

## Main definitions

* `Gathering.Contributes` — a settled request brings a right share of an actor
* `Gathering.Counts` — the last right share of an actor
* `Gathering.Tracks` — what a gathering has counted
* `Gathering.outcome` — a whole request over batches of settled requests

## Main results

* `Meeting.submit_cases` — what becomes of a submitted share
* `Gathering.Tracks.collect`, `Gathering.Tracks.collectAll` — counting settled requests
* `Gathering.Tracks.run` — counting batches until there is nothing to wait for
* `Gathering.outcome_spec` — what a request counts and how it ends
* `Gathering.outcome_of_stray_shares` — right shares that do not count
-/

namespace Quorum

namespace Meeting

/-- What becomes of a share that is submitted to a collecting meeting which can be bound to its
ciphertext: it is kept, or it is rejected, or its check fails because the check of the ciphertext
does. -/
theorem submit_cases {m : Meeting} {c : Ciphertext} (collecting : m.state = .collecting)
    (elliptic : m.scheme = .elliptic) (free : m.Free c)
    (complete : m.material.Complete) (id : ℤ) (share : DecryptionShare) :
    let Right := share.actor = id ∧ (0 ≤ id ∧ id < m.material.parties) ∧
      ∃ publicShare, m.material.keys.publicShare id = .ok publicShare ∧
        Threshold.verifyShare share publicShare c = .ok true
    (Right ∧ ∃ reception, m.submit id c share =
        (.ok reception, { m with bound := some c, shares := m.shares.insert id share })) ∨
      (¬Right ∧ ∃ reason m', m.submit id c share = (.error (.shareRejected id reason), m') ∧
        (m' = m ∨ m' = { m with bound := some c })) ∨
      ((∃ m', m.submit id c share = (.error .tooBig, m')) ∧ c.verify = .error .tooBig) := by
  intro Right
  have binding : m.bind? c = some { m with bound := some c } := bind?_eq_some_iff.mpr ⟨free, rfl⟩
  by_cases own : share.actor = id
  · by_cases member : 0 ≤ id ∧ id < m.material.parties
    · obtain ⟨publicShare, known⟩ := complete id member.1 member.2
      have known' := publicShare_eq_ok_iff.mpr ⟨member, known⟩
      simp only [submit, collecting, own, ne_eq, not_true_eq_false, if_false, known', binding,
        store, elliptic, Scheme.elliptic]
      cases checked : Threshold.verifyShare share publicShare c with
      | error f =>
        obtain ⟨rfl, wide⟩ := Threshold.eq_tooBig_of_verifyShare checked
        exact .inr (.inr ⟨⟨_, rfl⟩, wide⟩)
      | ok verified =>
        cases verified with
        | true => exact .inl ⟨⟨own, member, publicShare, known, checked⟩, _, rfl⟩
        | false =>
          refine .inr (.inl ⟨?_, _, _, rfl, .inr rfl⟩)
          rintro ⟨-, -, other, other_known, right⟩
          rw [known, Except.ok.injEq] at other_known
          rw [← other_known, checked] at right
          cases right
    · refine .inr (.inl ⟨fun right => member right.2.1, "unknown actor", m, ?_, .inl rfl⟩)
      simp only [submit, collecting, own, ne_eq, not_true_eq_false, if_false, Meeting.publicShare,
        if_neg member]
  · refine .inr (.inl ⟨fun right => own right.1, "share belongs to another actor", m, ?_,
      .inl rfl⟩)
    simp only [submit, collecting, ne_eq, own, not_false_eq_true, if_true]

end Meeting

namespace Gathering

section Counting

variable (material : Material) (request : String) (c : Ciphertext) (asked : List ℤ)

/-- A settled request brings a right share of the actor that was asked, which is one of the society:
the answer names the actor, the request and the routed ciphertext, and its share is the actor's own
and passes the check against the actor's public share. -/
structure Contributes (s : Settled) (i : ℤ) (share : DecryptionShare) : Prop where
  asked : asked[s.position]? = some i
  /-- The answer names the actor, the request and the routed ciphertext. -/
  reply : s.reply = .ok ⟨i, request, c, share⟩
  /-- The share is the actor's own. -/
  own : share.actor = i
  member : 0 ≤ i ∧ i < material.parties
  /-- The share passes the check against the actor's public share. -/
  right : ∃ publicShare, material.keys.publicShare i = .ok publicShare ∧
    Threshold.verifyShare share publicShare c = .ok true

/-- The last right share of an actor among settled requests. -/
def Counts (collected : List Settled) (i : ℤ) (share : DecryptionShare) : Prop :=
  ∃ before s after, collected = before ++ s :: after ∧
    Contributes material request c asked s i share ∧
      ∀ s' ∈ after, ∀ other, ¬Contributes material request c asked s' i other

variable {material request c asked} {collected : List Settled} {s : Settled} {i : ℤ}
  {share : DecryptionShare}

theorem Contributes.unique {j : ℤ} {other : DecryptionShare}
    (first : Contributes material request c asked s i share)
    (second : Contributes material request c asked s j other) : i = j ∧ share = other := by
  have replies := first.reply.symm.trans second.reply
  simp only [Except.ok.injEq, ShareResponse.mk.injEq] at replies
  exact ⟨replies.1, replies.2.2.2⟩

/-- After one more settled request the last right share is its own or that of before. -/
theorem counts_append_singleton : Counts material request c asked (collected ++ [s]) i share ↔
    Contributes material request c asked s i share ∨
      (∀ other, ¬Contributes material request c asked s i other) ∧
        Counts material request c asked collected i share := by
  constructor
  · rintro ⟨before, s', after, split, contributes, none⟩
    rcases List.eq_nil_or_concat after with rfl | ⟨after, last, rfl⟩
    · obtain ⟨-, same⟩ := List.append_inj' split rfl
      obtain rfl := List.cons.inj same |>.1
      exact .inl contributes
    · rw [List.concat_eq_append, ← List.cons_append, ← List.append_assoc] at split
      obtain ⟨rfl, same⟩ := List.append_inj' split rfl
      obtain rfl := List.cons.inj same |>.1
      exact .inr ⟨none _ (by simp), before, s', after, rfl, contributes,
        fun other member => none other (by simp [member])⟩
  · rintro (contributes | ⟨silent, before, s', after, rfl, contributes, none⟩)
    · exact ⟨collected, s, [], rfl, contributes, by simp⟩
    · refine ⟨before, s', after ++ [s], by simp, contributes, fun other member => ?_⟩
      rcases List.mem_append.mp member with later | last
      · exact none other later
      · rw [List.mem_singleton.mp last]
        exact silent

/-- An actor has a last right share exactly when some settled request brings a right one. -/
theorem exists_counts_iff : (∃ share, Counts material request c asked collected i share) ↔
    ∃ s ∈ collected, ∃ share, Contributes material request c asked s i share := by
  constructor
  · rintro ⟨share, before, s, after, rfl, contributes, -⟩
    exact ⟨s, by simp, share, contributes⟩
  · intro some_right
    induction collected using List.reverseRecOn with
    | nil => simp at some_right
    | append_singleton collected s ih =>
      by_cases last : ∃ share, Contributes material request c asked s i share
      · obtain ⟨share, contributes⟩ := last
        exact ⟨share, counts_append_singleton.mpr (.inl contributes)⟩
      · push Not at last
        obtain ⟨s', member, share, contributes⟩ := some_right
        rcases List.mem_append.mp member with before | same
        · obtain ⟨share', counts⟩ := ih ⟨s', before, share, contributes⟩
          exact ⟨share', counts_append_singleton.mpr (.inr ⟨last, counts⟩)⟩
        · rw [List.mem_singleton.mp same] at contributes
          exact absurd contributes (last share)

end Counting

/-- A whole request: batches of settled requests are taken until there is nothing to wait for, or
the deadline strikes after the last one. -/
def outcome (g : Gathering) (timeout : Binary64) (batches : List (List Settled)) :
    Outcome Bytes := do
  let g ← g.run batches
  g.conclude timeout

/-- A gathering has counted the last right shares among the requests that were settled, and its
meeting collects for the routed ciphertext. -/
structure Tracks (material : Material) (request : String) (c : Ciphertext) (asked : List ℤ)
    (collected : List Settled) (g : Gathering) : Prop where
  routed : g.ciphertext = c
  asked_eq : g.asked = asked
  material_eq : g.meeting.material = material
  request_eq : g.meeting.request = request
  elliptic : g.meeting.scheme = .elliptic
  collecting : g.meeting.state = .collecting
  /-- The meeting is not bound to another ciphertext. -/
  free : g.meeting.Free c
  /-- A meeting with shares is bound. -/
  bound : g.meeting.shares.size ≠ 0 → g.meeting.bound = some c
  /-- The kept shares are the last right ones. -/
  counted : ∀ i share, g.meeting.shares.get? i = some share ↔
    Counts material request c asked collected i share

section Run

variable {material : Material} {request : String} {c : Ciphertext} {asked : List ℤ}
  {collected : List Settled} {g : Gathering}

/-- An answer to a request that went out is submitted, and a rejection is passed over. -/
theorem Tracks.collect_of_answered (tracks : Tracks material request c asked collected g)
    {s : Settled} {id : ℤ} {share : DecryptionShare} (sent : asked[s.position]? = some id)
    (reply : s.reply = .ok ⟨id, request, c, share⟩) :
    (∀ reception m, g.meeting.submit id c share = (.ok reception, m) →
      g.collect s = .ok { g with meeting := m }) ∧
    ∀ f m, g.meeting.submit id c share = (.error f, m) →
      g.collect s = if f.isRejection then .ok { g with meeting := m } else .error f := by
  have answers : g.answers id ⟨id, request, c, share⟩ = true := by
    simp [Gathering.answers, tracks.request_eq, tracks.routed]
  constructor
  · intro reception m submitted
    simp only [Gathering.collect, reply, tracks.asked_eq, sent, answers, if_true, tracks.routed,
      submitted]
  · intro f m submitted
    simp only [Gathering.collect, reply, tracks.asked_eq, sent, answers, if_true, tracks.routed,
      submitted]

/-- Failures and misrouted answers are passed over. -/
theorem Tracks.collect_of_not_answered (tracks : Tracks material request c asked collected g)
    {s : Settled} (silent : ∀ id share, ¬(asked[s.position]? = some id ∧
      s.reply = .ok ⟨id, request, c, share⟩)) : g.collect s = .ok g := by
  unfold Gathering.collect
  split
  · next r id reply sent =>
    split
    · next answers =>
      simp only [Gathering.answers, Bool.and_eq_true, beq_iff_eq, tracks.request_eq,
        tracks.routed] at answers
      obtain ⟨actor, answered, routed, share⟩ := r
      obtain ⟨⟨rfl, rfl⟩, rfl⟩ := answers
      exact absurd ⟨tracks.asked_eq ▸ sent, reply⟩ (silent _ share)
    · rfl
  · rfl

/-- At the start nothing is counted. -/
theorem tracks_start (material : Material) (request : String) (c : Ciphertext) (asked : List ℤ) :
    Tracks material request c asked [] (start c asked (.new material request .elliptic)) where
  routed := rfl
  asked_eq := rfl
  material_eq := rfl
  request_eq := rfl
  elliptic := rfl
  collecting := rfl
  free := .inl rfl
  bound := fun nonempty => absurd rfl nonempty
  counted := fun i share => by
    constructor
    · intro found
      cases found
    · rintro ⟨before, s, after, split, -⟩
      simp at split

/-- A settled request that brings no right share changes at most what the meeting is bound to. -/
theorem Tracks.silent (tracks : Tracks material request c asked collected g) {s : Settled}
    (silent : ∀ i share, ¬Contributes material request c asked s i share) {m : Meeting}
    (same : m = g.meeting ∨ m = { g.meeting with bound := some c }) :
    Tracks material request c asked (collected ++ [s]) { g with meeting := m } := by
  have counted : ∀ i share, g.meeting.shares.get? i = some share ↔
      Counts material request c asked (collected ++ [s]) i share := fun i share => by
    rw [counts_append_singleton, tracks.counted]
    exact ⟨fun counts => .inr ⟨silent i, counts⟩,
      fun cases => cases.elim (fun right => absurd right (silent i share)) And.right⟩
  rcases same with rfl | rfl
  · exact { tracks with counted }
  · exact { tracks with free := .inr rfl, bound := fun _ => rfl, counted }

/-- A settled request that brings a right share is counted. -/
theorem Tracks.keep (tracks : Tracks material request c asked collected g) {s : Settled} {i : ℤ}
    {share : DecryptionShare} (contributes : Contributes material request c asked s i share) :
    Tracks material request c asked (collected ++ [s]) { g with meeting :=
      { g.meeting with bound := some c, shares := g.meeting.shares.insert i share } } where
  routed := tracks.routed
  asked_eq := tracks.asked_eq
  material_eq := tracks.material_eq
  request_eq := tracks.request_eq
  elliptic := tracks.elliptic
  collecting := tracks.collecting
  free := .inr rfl
  bound := fun _ => rfl
  counted := fun j other => by
    rw [Table.get?_insert, counts_append_singleton]
    -- Only the entry of the actor that answered changes.
    by_cases same : j = i
    · subst same
      rw [if_pos rfl]
      constructor
      · intro found
        obtain rfl := Option.some.inj found
        exact .inl contributes
      · rintro (right | ⟨silent, -⟩)
        · rw [(contributes.unique right).2]
        · exact absurd contributes (silent share)
    · rw [if_neg same, tracks.counted]
      constructor
      · exact fun counts => .inr ⟨fun _ right => same (contributes.unique right).1.symm, counts⟩
      · rintro (right | ⟨-, counts⟩)
        · exact absurd (contributes.unique right).1.symm same
        · exact counts

/-- Counting a settled request keeps track of the last right shares, or its check fails because the
check of the ciphertext does. -/
theorem Tracks.collect (tracks : Tracks material request c asked collected g)
    (complete : material.Complete) (s : Settled) :
    (∃ g', g.collect s = .ok g' ∧ Tracks material request c asked (collected ++ [s]) g' ∧
      g'.out = g.out) ∨ (g.collect s = .error .tooBig ∧ c.verify = .error .tooBig) := by
  by_cases answered : ∃ id share, asked[s.position]? = some id ∧
      s.reply = .ok ⟨id, request, c, share⟩
  · obtain ⟨id, share, sent, reply⟩ := answered
    have counted := tracks.collect_of_answered sent reply
    rcases Meeting.submit_cases tracks.collecting tracks.elliptic tracks.free
      (tracks.material_eq ▸ complete) id share with
        ⟨right, reception, kept⟩ | ⟨wrong, reason, m, rejected, same⟩ | ⟨⟨m, failed⟩, wide⟩
    · rw [tracks.material_eq] at right
      obtain ⟨own, member, right⟩ := right
      rw [counted.1 _ _ kept]
      exact .inl ⟨_, rfl, tracks.keep ⟨sent, reply, own, member, right⟩, rfl⟩
    · rw [counted.2 _ _ rejected]
      refine .inl ⟨_, rfl, tracks.silent (fun i other right => wrong ?_) same, rfl⟩
      have replies := reply.symm.trans right.reply
      simp only [Except.ok.injEq, ShareResponse.mk.injEq] at replies
      obtain ⟨rfl, -, -, rfl⟩ := replies
      rw [tracks.material_eq]
      exact ⟨right.own, right.member, right.right⟩
    · rw [counted.2 _ _ failed]
      exact .inr ⟨rfl, wide⟩
  · push Not at answered
    refine .inl ⟨g, tracks.collect_of_not_answered fun id share answer =>
      answered id share answer.1 answer.2, tracks.silent (fun i share right =>
        answered i share right.asked right.reply) (.inl rfl), rfl⟩

/-- Counting settled requests one after another. -/
theorem Tracks.collectAll (tracks : Tracks material request c asked collected g)
    (complete : material.Complete) (batch : List Settled) :
    (∃ g', g.collectAll batch = .ok g' ∧ Tracks material request c asked (collected ++ batch) g' ∧
      g'.out = g.out) ∨ (g.collectAll batch = .error .tooBig ∧ c.verify = .error .tooBig) := by
  -- By induction on the batch, with what has been collected growing at its end.
  induction batch generalizing g collected with
  | nil => exact .inl ⟨g, rfl, by rwa [List.append_nil], rfl⟩
  | cons s batch ih =>
    rw [Gathering.collectAll]
    rcases tracks.collect complete s with ⟨g', isOk, tracks', out⟩ | ⟨failed, wide⟩
    · rw [isOk, Outcome.bind_ok]
      rcases ih tracks' with ⟨g'', isOk, tracks'', out'⟩ | failed
      · rw [List.append_assoc, List.singleton_append] at tracks''
        exact .inl ⟨g'', isOk, tracks'', out'.trans out⟩
      · exact .inr failed
    · rw [failed]
      exact .inr ⟨rfl, wide⟩

/-- The requests that are still out are those that no settled request answers. -/
def Waits (asked : List ℤ) (collected : List Settled) (g : Gathering) : Prop :=
  ∀ p, p ∈ g.out ↔ p < asked.length ∧ ∀ s ∈ collected, s.position ≠ p

/-- Taking a batch of settled requests. -/
theorem Tracks.absorb (tracks : Tracks material request c asked collected g)
    (waits : Waits asked collected g) (complete : material.Complete) (batch : List Settled) :
    (∃ g', g.absorb batch = .ok g' ∧ Tracks material request c asked (collected ++ batch) g' ∧
      Waits asked (collected ++ batch) g') ∨
      (g.absorb batch = .error .tooBig ∧ c.verify = .error .tooBig) := by
  -- The batch leaves the requests that are out before any of it is counted.
  set out := g.out.filter fun i => !batch.any fun s => s.position == i with out_def
  have waits' : Waits asked (collected ++ batch) { g with out } := fun p => by
    simp only [out_def, List.mem_filter, waits p, Bool.not_eq_true', List.any_eq_false,
      beq_iff_eq, List.forall_mem_append]
    tauto
  have tracks' : Tracks material request c asked collected { g with out } := { tracks with }
  rcases tracks'.collectAll complete batch with ⟨g', isOk, tracks'', same⟩ | failed
  · exact .inl ⟨g', isOk, tracks'', fun p => by rw [same]; exact waits' p⟩
  · exact .inr failed

/-- Before everything is done a batch is taken, and then the next ones. -/
theorem run_cons (waiting : g.isDone = false) (batch : List Settled)
    (later : List (List Settled)) :
    g.run (batch :: later) = (do
      let g ← g.absorb batch
      g.run later) := by
  rw [Gathering.run, if_neg (by simp [waiting])]

/-- Taking batches while the quorum is missing and a request is out. -/
theorem Tracks.run (tracks : Tracks material request c asked collected g)
    (waits : Waits asked collected g) (complete : material.Complete)
    (batches : List (List Settled)) :
    (∃ g' taken rest, g.run batches = .ok g' ∧ batches = taken ++ rest ∧
      Tracks material request c asked (collected ++ taken.flatten) g' ∧
      Waits asked (collected ++ taken.flatten) g' ∧ (rest = [] ∨ g'.isDone = true) ∧
      ∀ earlier batch later, taken = earlier ++ batch :: later →
        ∃ g'', g.run earlier = .ok g'' ∧ g''.isDone = false) ∨
      (g.run batches = .error .tooBig ∧ c.verify = .error .tooBig) := by
  -- By induction on the batches; `Tracks` and `Waits` describe the state by what was taken alone.
  induction batches generalizing g collected with
  | nil => exact .inl ⟨g, [], [], rfl, rfl, by simpa using tracks, by simpa using waits, .inl rfl,
      fun earlier batch later split => by simp at split⟩
  | cons batch batches ih =>
    by_cases done : g.isDone = true
    · refine .inl ⟨g, [], batch :: batches, by rw [Gathering.run, if_pos done], rfl,
        by simpa using tracks, by simpa using waits, .inr done, fun earlier b later split => ?_⟩
      simp at split
    · have waiting : g.isDone = false := by simpa using done
      rcases tracks.absorb waits complete batch with ⟨g', isOk, tracks', waits'⟩ | ⟨failed, wide⟩
      · have continued (rest : List (List Settled)) : g.run (batch :: rest) = g'.run rest := by
          rw [run_cons waiting, isOk, Outcome.bind_ok]
        rw [continued]
        rcases ih tracks' waits' with
          ⟨g'', taken, rest, ran, rfl, tracks'', waits'', ends, earlier⟩ | failed
        · rw [List.append_assoc] at tracks'' waits''
          refine .inl ⟨g'', batch :: taken, rest, ran, rfl, tracks'', waits'', ends,
            fun before b later split => ?_⟩
          -- The gathering was not done before this batch, nor before any later one.
          cases before with
          | nil => exact ⟨g, rfl, waiting⟩
          | cons first before =>
            obtain ⟨rfl, tail⟩ := List.cons.inj split
            rw [continued]
            exact earlier before b later tail
        · exact .inr failed
      · rw [run_cons waiting, failed]
        exact .inr ⟨rfl, wide⟩

/-- Nothing is out when every request is settled. -/
theorem Waits.isEmpty_iff (waits : Waits asked collected g) :
    g.out.isEmpty = true ↔ ∀ p < asked.length, ∃ s ∈ collected, s.position = p := by
  rw [List.isEmpty_iff, List.eq_nil_iff_forall_not_mem]
  refine forall_congr' fun p => ?_
  rw [waits p]
  push Not
  rfl

theorem Tracks.hasQuorum_iff (tracks : Tracks material request c asked collected g) :
    g.meeting.hasQuorum = true ↔ material.quorum ≤ g.meeting.shares.size := by
  rw [Meeting.hasQuorum, decide_eq_true_iff, tracks.material_eq]

/-- There is nothing to wait for when the quorum is there or every request is settled. -/
theorem Tracks.isDone_iff (tracks : Tracks material request c asked collected g)
    (waits : Waits asked collected g) : g.isDone = true ↔
      material.quorum ≤ g.meeting.shares.size ∨
        ∀ p < asked.length, ∃ s ∈ collected, s.position = p := by
  rw [isDone, Bool.or_eq_true, waits.isEmpty_iff, tracks.hasQuorum_iff, or_comm]

/-- With a quorum the outcome is that of combining, and without one it depends on whether a request
is still out. -/
theorem Tracks.conclude (tracks : Tracks material request c asked collected g)
    (waits : Waits asked collected g) (timeout : Binary64) :
    let counted := g.meeting.shares.size
    (material.quorum ≤ counted →
      g.conclude timeout = Threshold.combine g.meeting.shares material.keys c) ∧
    (counted < material.quorum → (∃ p < asked.length, ∀ s ∈ collected, s.position ≠ p) →
      g.conclude timeout = .error (.timeout counted material.quorum timeout)) ∧
    (counted < material.quorum → (∀ p < asked.length, ∃ s ∈ collected, s.position = p) →
      g.conclude timeout = .error (.insufficient counted material.quorum)) := by
  intro counted
  have reached : g.meeting.hasQuorum = true ↔ material.quorum ≤ counted := tracks.hasQuorum_iff
  refine ⟨fun enough => ?_, fun few still => ?_, fun few settled => ?_⟩
  · have positive : 0 < material.quorum := Nat.succ_pos _
    -- A quorum is at least one share, so the meeting is bound.
    have bound := tracks.bound (by omega)
    have notFew : ¬g.meeting.shares.size < material.quorum := not_lt.mpr enough
    simp only [Gathering.conclude, reached.mpr enough, if_true, Meeting.decrypt, tracks.collecting,
      bound, tracks.material_eq, tracks.elliptic, Scheme.elliptic, if_neg notFew]
    have ends : (∃ payload, Threshold.combine g.meeting.shares material.keys c = .ok payload) ∨
        Threshold.combine g.meeting.shares material.keys c = .error .notCombined :=
      Threshold.combine_isOk_or_notCombined enough
    rcases ends with ⟨payload, isOk⟩ | refused
    · rw [isOk]
      rfl
    · rw [refused]
      rfl
  · have noQuorum := reached.not.mpr (not_le.mpr few)
    have out : ¬g.out.isEmpty = true := by
      rw [waits.isEmpty_iff]
      push Not
      exact still
    rw [Gathering.conclude, if_neg noQuorum, if_neg out, tracks.material_eq]
  · have noQuorum := reached.not.mpr (not_le.mpr few)
    rw [Gathering.conclude, if_neg noQuorum, if_pos (waits.isEmpty_iff.mpr settled),
      tracks.material_eq]

/-- How a request ends that counts with material in which every party has a public share. -/
theorem outcome_of_complete (complete : material.Complete) (request : String) (c : Ciphertext)
    (asked : List ℤ) (batches : List (List Settled)) (timeout : Binary64) :
    let start := Gathering.start c asked (.new material request .elliptic)
    (∃ g taken rest, start.run batches = .ok g ∧ batches = taken ++ rest ∧
      Tracks material request c asked taken.flatten g ∧ Waits asked taken.flatten g ∧
      (rest = [] ∨ g.isDone = true) ∧
      (∀ earlier batch later, taken = earlier ++ batch :: later →
        ∃ g', start.run earlier = .ok g' ∧ g'.isDone = false) ∧
      start.outcome timeout batches = g.conclude timeout) ∨
    (start.outcome timeout batches = .error .tooBig ∧ c.verify = .error .tooBig) := by
  intro start
  have waits : Waits asked [] start := fun p => by simp [start, Gathering.start]
  rcases (tracks_start material request c asked).run waits complete batches with
    ⟨g, taken, rest, ran, split, tracks, waits, stopped, earlier⟩ | ⟨failed, wide⟩
  · rw [List.nil_append] at tracks waits
    refine .inl ⟨g, taken, rest, ran, split, tracks, waits, stopped, earlier, ?_⟩
    rw [outcome, ran, Outcome.bind_ok]
  · refine .inr ⟨?_, wide⟩
    rw [outcome, failed]
    rfl

end Run

section Dealt

variable {parties threshold : ℤ} {draw : ℕ → ℕ} {material : Material} {keyShares : List KeyShare}

/-- How a request over dealt material ends, whichever requests are settled in whichever batches.
Batches are taken until the quorum is there or nothing is out. The actors that count are those that
were asked and answered with a right share, the last one each, and the ciphertext that binds is the
routed one. With a quorum the counted shares are combined; without one the outcome says whether a
request was still out. Only a ciphertext with a field of `2 ^ 32` bytes or more can end the request
otherwise, at the first share that is checked. -/
theorem outcome_spec (dealt : Dealer.deal parties threshold draw = .ok (material, keyShares))
    (request : String) (c : Ciphertext) (asked : List ℤ) (batches : List (List Settled))
    (timeout : Binary64) :
    let start := Gathering.start c asked (.new material request .elliptic)
    let ending := start.outcome timeout batches
    (∃ g taken rest, start.run batches = .ok g ∧ batches = taken ++ rest ∧
      (let counted := g.meeting.shares
       let count := counted.size
       let settled := taken.flatten
       let need := material.quorum
       (need : ℤ) = threshold + 1 ∧
       -- Batches are taken as long as a request is out and the quorum is missing.
       (rest = [] ∨ need ≤ count ∨ ∀ p < asked.length, ∃ s ∈ settled, s.position = p) ∧
       (∀ earlier batch later, taken = earlier ++ batch :: later →
         ∃ g', start.run earlier = .ok g' ∧ g'.isDone = false) ∧
       -- Only the routed ciphertext binds.
       (g.meeting.bound = none ∨ g.meeting.bound = some c) ∧
       -- The actors that count, with the last right share of each.
       (counted.keys.Nodup ∧ counted.keys.length = count) ∧
       (∀ i, i ∈ counted.keys ↔
         ∃ s ∈ settled, ∃ share, Contributes material request c asked s i share) ∧
       (∀ i share, counted.get? i = some share ↔
         Counts material request c asked settled i share) ∧
       -- The outcome.
       (need ≤ count → ending = Threshold.combine counted material.keys c ∧
         ((∃ payload, ending = .ok payload) ∨ ending = .error .notCombined)) ∧
       (count < need → (∃ p < asked.length, ∀ s ∈ settled, s.position ≠ p) →
         ending = .error (.timeout count need timeout)) ∧
       (count < need → (∀ p < asked.length, ∃ s ∈ settled, s.position = p) →
         ending = .error (.insufficient count need)))) ∨
    (ending = .error .tooBig ∧
      ∃ field ∈ [c.ephemeral, c.nonce, c.sealed, c.commitment], 2 ^ 32 ≤ field.length) := by
  intro start ending
  rcases outcome_of_complete (Dealer.complete_of_deal dealt) request c asked batches timeout with
    ⟨g, taken, rest, ran, split, tracks, waits, stopped, earlier, concluded⟩ | ⟨failed, wide⟩
  · obtain ⟨combined, timedOut, insufficient⟩ := tracks.conclude waits timeout
    rw [← concluded] at combined timedOut insufficient
    refine .inl ⟨g, taken, rest, ran, split, (Dealer.quorum_of_deal dealt).1, ?_, earlier,
      tracks.free, ⟨g.meeting.shares.nodup_keys, Table.length_keys _⟩, fun i => ?_,
      tracks.counted, fun enough => ⟨combined enough, ?_⟩, timedOut, insufficient⟩
    · rcases stopped with all | done
      · exact .inl all
      · exact .inr ((tracks.isDone_iff waits).mp done)
    · rw [Table.mem_keys_iff, ← exists_counts_iff]
      exact exists_congr fun share => tracks.counted i share
    · have combined : ending = Threshold.combine g.meeting.shares material.keys c :=
        combined enough
      rw [combined]
      exact Threshold.combine_isOk_or_notCombined enough
  · exact .inr ⟨failed, (Ciphertext.eq_tooBig_of_verify wide).2⟩

end Dealt

/-- Two parties can be dealt shares when every draw is zero. -/
theorem exists_deal_of_zero_draws :
    ∃ material shares, Dealer.deal 2 1 (fun _ => 0) = .ok (material, shares) := by
  refine Dealer.deal_isOk (by decide) (by decide) fun i below => ?_
  obtain rfl | rfl : i = 0 ∨ i = 1 := by omega
  · decide +kernel
  · decide +kernel

/-- A request to two actors that never answer runs into its deadline. -/
theorem outcome_of_silence :
    ∃ material shares c, Dealer.deal 2 1 (fun _ => 0) = .ok (material, shares) ∧
      c.verify = .ok true ∧ ∀ timeout,
        (start c [0, 1] (.new material "r" .elliptic)).outcome timeout [[], []] =
          .error (.timeout 0 2 timeout) := by
  obtain ⟨material, shares, dealt⟩ := exists_deal_of_zero_draws
  obtain ⟨c, holds, -⟩ := Ciphertext.exists_verify_of_empty_payload
  refine ⟨material, shares, c, dealt, holds, fun timeout => ?_⟩
  rcases outcome_spec dealt "r" c [0, 1] [[], []] timeout with
    ⟨g, taken, rest, -, split, need, -, -, -, ⟨-, length⟩, keys, -, -, timedOut, -⟩ |
    ⟨-, field, member, wide⟩
  · have noneSettled : ∀ s ∈ taken.flatten, False := by
      have noneInAll : ∀ s ∈ (taken ++ rest).flatten, False := by
        rw [← split]
        simp
      intro s member
      exact noneInAll s (by simp [List.flatten_append, member])
    have size_eq : g.meeting.shares.size = 0 := by
      rw [← length, List.length_eq_zero_iff, List.eq_nil_iff_forall_not_mem]
      intro i member
      obtain ⟨s, settled, -⟩ := (keys i).mp member
      exact noneSettled s settled
    have need_eq : material.quorum = 2 := by omega
    rw [size_eq, need_eq] at timedOut
    exact timedOut two_pos ⟨0, two_pos, fun s settled => (noneSettled s settled).elim⟩
  · exact absurd (Ciphertext.short_of_verify holds field member) (not_lt.mpr wide)

/-- A right share of an index beyond the parties does not count, nor does one that comes back for
the request to another actor. A ciphertext with a nonce that does not fit behind its length ends the
request at the first share that is checked. -/
theorem outcome_of_stray_shares :
    ∃ material shares c, Dealer.deal 2 1 (fun _ => 0) = .ok (material, shares) ∧
      c.verify = .ok true ∧
      (∃ share publicShare, share.actor = 5 ∧ material.keys.publicShare 5 = .ok publicShare ∧
        Threshold.verifyShare share publicShare c = .ok true ∧ ∀ timeout,
          (start c [5] (.new material "r" .elliptic)).outcome timeout
            [[⟨0, .ok ⟨5, "r", c, share⟩⟩]] = .error (.insufficient 0 2)) ∧
      (∃ share publicShare, share.actor = 0 ∧ material.keys.publicShare 0 = .ok publicShare ∧
        Threshold.verifyShare share publicShare c = .ok true ∧ ∀ timeout,
          (start c [0, 1] (.new material "r" .elliptic)).outcome timeout
            [[⟨0, .error (.unreachable 0)⟩, ⟨1, .ok ⟨0, "r", c, share⟩⟩]] =
              .error (.insufficient 0 2)) ∧
      ∃ wide : Ciphertext, ∀ share : DecryptionShare, share.actor = 0 → ∀ timeout,
        (start wide [0, 1] (.new material "r" .elliptic)).outcome timeout
          [[⟨0, .ok ⟨0, "r", wide, share⟩⟩]] = .error .tooBig := by
  obtain ⟨material, shares, dealt⟩ := exists_deal_of_zero_draws
  obtain ⟨c, holds, -⟩ := Ciphertext.exists_verify_of_empty_payload
  have quorum : material.quorum = 2 := by
    have := (Dealer.quorum_of_deal dealt).1
    omega
  have parties : material.parties = 2 := by exact_mod_cast (Dealer.quorum_of_deal dealt).2
  obtain ⟨secrets, generated, -, -⟩ := Dealer.deal_eq_ok_iff.mp dealt
  have polynomial := Threshold.dealt_of_generate generated (by decide)
  -- The polynomial has right shares at every index, dealt or not.
  refine ⟨material, shares, c, dealt, holds, ?_, ?_, ?_⟩
  · obtain ⟨share, publicShare, actor, known, right⟩ :=
      polynomial.exists_share (by decide : (0 : ℤ) ≤ 5) (by decide +kernel) holds
    refine ⟨share, publicShare, actor, known, right, fun timeout => ?_⟩
    simp [outcome, run, start, isDone, absorb, collectAll, collect, answers, conclude, Meeting.new,
      Meeting.hasQuorum, Meeting.submit, Meeting.publicShare, quorum, parties, actor, Table.empty,
      Table.size, Fault.isRejection]
  · obtain ⟨share, publicShare, actor, known, right⟩ :=
      polynomial.exists_share (by decide : (0 : ℤ) ≤ 0) (by decide +kernel) holds
    refine ⟨share, publicShare, actor, known, right, fun timeout => ?_⟩
    simp [outcome, run, start, isDone, absorb, collectAll, collect, answers, conclude, Meeting.new,
      Meeting.hasQuorum, quorum, Table.empty, Table.size]
    omega
  · obtain ⟨nonce, long⟩ : ∃ nonce : Bytes, 2 ^ 32 ≤ nonce.length :=
      ⟨List.replicate (2 ^ 32) 0, List.length_replicate.ge⟩
    have wide := Ciphertext.verify_of_wide holds long
    obtain ⟨publicShare, known⟩ := Dealer.complete_of_deal dealt 0 le_rfl (by omega)
    refine ⟨{ c with nonce }, fun share actor timeout => ?_⟩
    simp [outcome, run, start, isDone, absorb, collectAll, collect, answers, Meeting.new,
      Meeting.hasQuorum, Meeting.submit, Meeting.publicShare, Meeting.bind?, Meeting.store,
      Scheme.elliptic, Threshold.verifyShare, quorum, parties, actor, known, wide, Table.empty,
      Table.size, Fault.isRejection]

end Gathering

end Quorum
