import Quorum.Proofs.Society.Lifecycle
import Quorum.Proofs.Society.Request
import Quorum.Proofs.Society.Staff
import Quorum.Proofs.Society.Timeline

/-!
# Two ways to decrypt

A coordinator can accept its actors one after another until it has a quorum, or ask all of them and
count batches of answers as they come in. The one meeting counts the first actors of the list and
the other may count different ones and more, but both count answers of the same actors, and either
has a quorum when the other has. Since any quorum combines to the same, both end alike.

The exception are ciphertexts that cannot be checked at all, because a field has a length that does
not fit into four bytes. Accepting actors one after another, the first of them breaks off; a request
passes every actor over.

## Main definitions

* `Meeting.Counting`, `Meeting.HasCounted`, `Meeting.Collects` — what a meeting has counted, and
  that it was enough
* `Run.Gathers` — what a run has counted, and what it still waits for
* `Coordinator.RequestStops`, `Coordinator.RequestEnds` — how requests end, whatever steps they take

## Main results

* `Meeting.Collects.agree` — meetings that have counted enough end alike
* `Coordinator.acceptAll_spec`, `Coordinator.acceptAll_of_wide` — accepting actors one after another
* `Run.Gathers.step`, `Run.Steps.gathers` — counting batches of answers
* `Coordinator.exists_collects_of_request` — a request that ends in time has counted enough
* `Coordinator.decrypt_eq_request` — the two ways to decrypt end alike
* `Coordinator.decrypt_of_wide`, `Coordinator.decrypt_ne_request_of_wide_nonce` — the exception
-/

namespace Quorum

namespace Meeting

/-- A meeting has counted answers to a ciphertext, of actors with given ids. -/
structure Counting (m : Meeting) (k : Coordinator) (c : Ciphertext) (ids : List ℤ) : Prop where
  material : m.material = k.material
  elliptic : m.scheme = .elliptic
  collecting : m.state = .collecting
  free : m.Free c
  bound : m.shares.size ≠ 0 → m.bound = some c
  counted : ∀ i share, m.shares.get? i = some share →
    i ∈ ids ∧ ∃ a, k.actors.get? i = some a ∧ a.compute c = .ok share

/-- A meeting has counted a quorum of the actors that answer, or all of them. -/
structure Collects (m : Meeting) (k : Coordinator) (c : Ciphertext) (ids : List ℤ) : Prop
    extends Counting m k c ids where
  enough : k.material.quorum ≤ m.shares.size ∨ ∀ i ∈ ids, ∀ a share,
    k.actors.get? i = some a → a.compute c = .ok share → i ∈ m.shares.keys

/-- A meeting has counted every one of some actors that answers. -/
def HasCounted (m : Meeting) (k : Coordinator) (c : Ciphertext) (accepted : List ℤ) : Prop :=
  ∀ i ∈ accepted, ∀ a share, k.actors.get? i = some a → a.compute c = .ok share →
    i ∈ m.shares.keys

variable {k : Coordinator} {c : Ciphertext} {ids : List ℤ} {m m₁ m₂ : Meeting}

/-- One actor more is counted or does not answer. -/
theorem HasCounted.concat {accepted : List ℤ} {id : ℤ} (counted : m₁.HasCounted k c accepted)
    (kept : m₁.shares.keys ⊆ m₂.shares.keys)
    (last : ∀ a share, k.actors.get? id = some a → a.compute c = .ok share →
      id ∈ m₂.shares.keys) : m₂.HasCounted k c (accepted ++ [id]) := by
  intro i member a share found computed
  rcases List.mem_append.mp member with before | same
  · exact kept (counted i before a share found computed)
  · obtain rfl := List.mem_singleton.mp same
    exact last a share found computed

theorem counting_new (scheme : k.scheme = .elliptic) (request : String) (c : Ciphertext)
    (ids : List ℤ) : (k.openMeeting request).Counting k c ids where
  material := rfl
  elliptic := scheme
  collecting := rfl
  free := .inl rfl
  bound := fun nonempty => absurd rfl nonempty
  counted := fun i share found => by cases found

theorem Counting.bind (counting : m.Counting k c ids) :
    Counting { m with bound := some c } k c ids where
  material := counting.material
  elliptic := counting.elliptic
  collecting := counting.collecting
  free := .inr rfl
  bound := fun _ => rfl
  counted := counting.counted

theorem Counting.keep (counting : m.Counting k c ids) {a : Actor} {id : ℤ} {share : DecryptionShare}
    (member : id ∈ ids) (found : k.actors.get? id = some a) (computed : a.compute c = .ok share) :
    Counting { m with bound := some c, shares := m.shares.insert id share } k c ids where
  material := counting.material
  elliptic := counting.elliptic
  collecting := counting.collecting
  free := .inr rfl
  bound := fun _ => rfl
  counted := fun i other kept => by
    rw [Table.get?_insert] at kept
    by_cases same : i = id
    · subst same
      rw [if_pos rfl, Option.some.injEq] at kept
      exact ⟨member, a, found, kept ▸ computed⟩
    · rw [if_neg same] at kept
      exact counting.counted i other kept

/-- How combining ends. -/
theorem Counting.decrypt_eq (counting : m.Counting k c ids) : m.decrypt.1 =
    if m.shares.size < k.material.quorum then
      .error (.insufficient m.shares.size k.material.quorum)
    else Threshold.combine m.shares k.material.keys c := by
  rw [← counting.material]
  by_cases few : m.shares.size < m.material.quorum
  · rw [decrypt_of_few counting.collecting few, if_pos few]
  · have enough := not_lt.mp few
    have positive : 0 < m.material.quorum := Nat.succ_pos _
    have bound := counting.bound (positive.trans_le enough).ne'
    rw [(decrypt_of_quorum counting.elliptic counting.collecting bound enough).1, if_neg few]

/-- A meeting that has counted no quorum has counted at least as many as any other. -/
theorem Collects.size_le (collects₁ : m₁.Collects k c ids) (counting₂ : m₂.Counting k c ids)
    (few : m₁.shares.size < k.material.quorum) : m₂.shares.size ≤ m₁.shares.size := by
  refine Table.size_le_size fun i member => ?_
  obtain ⟨share, kept⟩ := Table.mem_keys_iff.mp member
  obtain ⟨asked, a, found, computed⟩ := counting₂.counted i share kept
  exact collects₁.enough.resolve_left (not_le.mpr few) i asked a share found computed

/-- Meetings that have counted enough answers of the same actors end alike. -/
theorem Collects.agree (staffed : k.Staffed c) (collects₁ : m₁.Collects k c ids)
    (collects₂ : m₂.Collects k c ids) : m₁.decrypt.1 = m₂.decrypt.1 := by
  rw [collects₁.decrypt_eq, collects₂.decrypt_eq]
  by_cases few₁ : m₁.shares.size < k.material.quorum
  · have le := collects₁.size_le collects₂.toCounting few₁
    have few₂ := le.trans_lt few₁
    have same := le_antisymm (collects₂.size_le collects₁.toCounting few₂) le
    rw [if_pos few₁, if_pos few₂, same]
  · have few₂ : ¬m₂.shares.size < k.material.quorum := fun few₂ =>
      few₁ ((collects₂.size_le collects₁.toCounting few₂).trans_lt few₂)
    obtain ⟨combined, agreed⟩ := staffed.agree
    rw [if_neg few₁, if_neg few₂,
      agreed m₁.shares (fun i share kept => (collects₁.counted i share kept).2) (not_lt.mp few₁),
      agreed m₂.shares (fun i share kept => (collects₂.counted i share kept).2) (not_lt.mp few₂)]

/-- Nothing is counted when no actor answers. -/
theorem Counting.size_eq_zero (counting : m.Counting k c ids)
    (silent : ∀ id a share, k.actors.get? id = some a → a.compute c ≠ .ok share) :
    m.shares.size = 0 := by
  by_contra nonempty
  obtain ⟨i, member⟩ := List.exists_mem_of_length_pos
    (Nat.pos_of_ne_zero (Table.length_keys m.shares ▸ nonempty))
  obtain ⟨share, kept⟩ := Table.mem_keys_iff.mp member
  obtain ⟨-, a, found, computed⟩ := counting.counted i share kept
  exact silent i a share found computed

/-- A meeting ends with a payload, with the refusal to combine, or with too few shares. -/
theorem Counting.decrypt_cases (counting : m.Counting k c ids) :
    (∃ payload, m.decrypt.1 = .ok payload) ∨ m.decrypt.1 = .error .notCombined ∨
      ∃ count < k.material.quorum,
        m.decrypt.1 = .error (.insufficient count k.material.quorum) := by
  rw [counting.decrypt_eq]
  by_cases few : m.shares.size < k.material.quorum
  · rw [if_pos few]
    exact .inr (.inr ⟨_, few, rfl⟩)
  · rw [if_neg few]
    have ends : (∃ payload, Threshold.combine m.shares k.material.keys c = .ok payload) ∨
        Threshold.combine m.shares k.material.keys c = .error .notCombined :=
      Threshold.combine_isOk_or_notCombined (not_lt.mp few)
    exact ends.imp_right .inl

/-- Nobody answers a ciphertext that cannot be checked. -/
theorem Counting.decrypt_of_wide (staffed : k.Staffed c) (counting : m.Counting k c ids)
    (wide : c.verify = .error .tooBig) :
    m.decrypt.1 = .error (.insufficient 0 k.material.quorum) := by
  have silent : ∀ id a share, k.actors.get? id = some a → a.compute c ≠ .ok share := by
    intro id a share found computed
    have holds := (staffed.answers id a share found computed).1
    rw [wide] at holds
    cases holds
  have positive : 0 < k.material.quorum := Nat.succ_pos _
  rw [counting.decrypt_eq, counting.size_eq_zero silent, if_pos positive]
  rfl

/-- What becomes of an actor whose ciphertext is considered. -/
theorem Counting.consider (staffed : k.Staffed c) (counting : m.Counting k c ids) {a a' : Actor}
    {id : ℤ} (found : k.actors.get? id = some a) (share_eq : a'.share = a.share)
    (scheme_eq : a'.scheme = a.scheme) :
    (∃ share reception, a.compute c = .ok share ∧ m.consider a' c =
      (.ok reception, { m with bound := some c, shares := m.shares.insert id share })) ∨
    ∃ f, a.compute c = .error f ∧ m.consider a' c = (.error f, { m with bound := some c }) := by
  obtain ⟨own, range, known⟩ := staffed.own id a found
  have own' : a'.id = id := by rw [Actor.id, share_eq]; exact own
  have known' : m.publicShare a'.id = .ok a.share.publicShare := by
    rw [own', publicShare_eq_ok_iff, counting.material]
    exact ⟨range, known⟩
  have computed : a'.compute c = a.compute c := by
    rw [Actor.compute, Actor.compute, Actor.id, Actor.id, share_eq, scheme_eq]
  have binding : m.bind? c = some { m with bound := some c } :=
    bind?_eq_some_iff.mpr ⟨counting.free, rfl⟩
  simp only [Meeting.consider, known', share_eq, ne_eq, not_true_eq_false, if_false, binding,
    computed]
  cases answered : a.compute c with
  | error f => exact .inr ⟨f, rfl, rfl⟩
  | ok share =>
    obtain ⟨-, actor, right⟩ := staffed.answers id a share found answered
    refine .inl ⟨share, if m.shares.contains id then .replaced else .accepted, rfl, ?_⟩
    simp only [store, own', actor, ne_eq, not_true_eq_false, if_false, counting.elliptic,
      Scheme.elliptic, right]

end Meeting

/-! ### Accepting actors one after another -/

/-- Routing puts the ciphertext into the slots of its request. -/
theorem sight_route (c : Ciphertext) (request : String) (actors : Table ℤ Actor) (ids : List ℤ)
    (i : ℤ) : sight (Coordinator.route c request actors ids) request i =
      if i ∈ ids then (sight actors request i).map (·.withSlot (some c))
      else sight actors request i := by
  induction ids generalizing actors with
  | nil => rfl
  | cons id ids ih =>
    have split : Coordinator.route c request actors (id :: ids) =
        Coordinator.route c request (LocalTransport.contact actors id request c) ids := rfl
    rw [split, ih, sight_contact]
    simp only [and_true, List.mem_cons]
    by_cases same : i = id
    · simp only [same, true_or, if_true, Option.map_map]
      exact ite_self _
    · rw [if_neg same]
      simp only [same, false_or]

namespace Coordinator

variable {k : Coordinator} {c : Ciphertext} {ids : List ℤ} {m : Meeting} {request : String}

/-- The slots of a request while actors are accepted: the actors that are still to be accepted have
the ciphertext, unless they have been accepted before. -/
def Routed (k : Coordinator) (c : Ciphertext) (request : String) (accepted left : List ℤ)
    (actors : Table ℤ Actor) : Prop :=
  ∀ i, ∃ pending, sight actors request i = (sight k.actors request i).map (·.withSlot pending) ∧
    (i ∈ left → pending = some c ∨ pending = none ∧ i ∈ accepted)

theorem routed_route (k : Coordinator) (c : Ciphertext) (request : String) (ids : List ℤ) :
    k.Routed c request [] ids (route c request k.actors ids) := by
  intro i
  rw [sight_route]
  by_cases member : i ∈ ids
  · exact ⟨some c, if_pos member, fun _ => .inl rfl⟩
  · refine ⟨slot k.actors request i, ?_, fun left => absurd left member⟩
    rw [if_neg member, slot]
    cases sight k.actors request i <;> rfl

/-- While actors are accepted, none is lost and none is made. -/
theorem Routed.get?_eq_none {accepted left : List ℤ} {actors : Table ℤ Actor} {id : ℤ}
    (routed : k.Routed c request accepted left actors) (unknown : actors.get? id = none) :
    k.actors.get? id = none := by
  obtain ⟨pending, seen, -⟩ := routed id
  rw [sight, unknown, Option.map_none] at seen
  exact Option.map_eq_none_iff.mp (Option.map_eq_none_iff.mp seen.symm)

theorem Routed.exists_get? {accepted left : List ℤ} {actors : Table ℤ Actor} {id : ℤ} {a' : Actor}
    (routed : k.Routed c request accepted left actors) (found : actors.get? id = some a') :
    ∃ a, k.actors.get? id = some a := by
  obtain ⟨pending, seen, -⟩ := routed id
  rw [sight, found, Option.map_some] at seen
  obtain ⟨h, seen, -⟩ := Option.map_eq_some_iff.mp seen.symm
  obtain ⟨a, found, -⟩ := Option.map_eq_some_iff.mp seen
  exact ⟨a, found⟩

/-- Accepting an actor empties its slot. -/
theorem Routed.accept {accepted left : List ℤ} {actors : Table ℤ Actor} {id : ℤ} {a a' : Actor}
    (routed : k.Routed c request accepted (id :: left) actors)
    (found : k.actors.get? id = some a)
    (emptied : a'.holder request = (a.holder request).withSlot none) :
    k.Routed c request (accepted ++ [id]) left (actors.insert id a') := by
  intro i
  rw [sight_insert]
  by_cases same : i = id
  · subst same
    refine ⟨none, ?_, fun _ => .inr ⟨rfl, by simp⟩⟩
    rw [if_pos rfl, emptied, sight, found]
    rfl
  · obtain ⟨pending, seen, stands⟩ := routed i
    refine ⟨pending, (if_neg same).trans seen, fun member => ?_⟩
    exact (stands (.tail id member)).imp_right fun emptied => ⟨emptied.1, by simp [emptied.2]⟩

theorem Routed.skip {accepted left : List ℤ} {actors : Table ℤ Actor} {id : ℤ}
    (routed : k.Routed c request accepted (id :: left) actors) :
    k.Routed c request (accepted ++ [id]) left actors := by
  intro i
  obtain ⟨pending, seen, stands⟩ := routed i
  refine ⟨pending, seen, fun member => ?_⟩
  exact (stands (.tail id member)).imp_right fun emptied => ⟨emptied.1, by simp [emptied.2]⟩

/-- What becomes of an actor that is accepted: its answer is counted, or it is skipped, or it cannot
check the ciphertext. -/
theorem accept_cases (staffed : k.Staffed c) (counting : m.Counting k c ids)
    (served : m.request = request) {accepted left : List ℤ} {actors : Table ℤ Actor} {id : ℤ}
    {a a' : Actor} (member : id ∈ ids) (routed : k.Routed c request accepted (id :: left) actors)
    (found : k.actors.get? id = some a) (found' : actors.get? id = some a') :
    ∃ r m' a'', m.accept a' = (r, m', a'') ∧
      k.Routed c request (accepted ++ [id]) left (actors.insert id a'') ∧
      m'.Counting k c ids ∧ m'.request = request ∧
      ((∃ reception, r = .ok reception) ∧ c.verify = .ok true ∨
        (∃ f, r = .error f ∧ isSkipped f = true) ∧ (id ∈ accepted ∨ c.verify = .ok false) ∨
        r = .error .tooBig ∧ c.verify = .error .tooBig) ∧
      (m.HasCounted k c accepted → m'.HasCounted k c (accepted ++ [id])) := by
  obtain ⟨pending, seen, stands⟩ := routed id
  rw [sight, found', sight, found, Option.map_some, Option.map_some, Option.map_some,
    Option.some.injEq] at seen
  have share_eq : a'.share = a.share := congrArg Holder.share seen
  have scheme_eq : a'.scheme = a.scheme := congrArg Holder.scheme seen
  have pending_eq : a'.pending? request = pending := congrArg Holder.pending seen
  rcases stands List.mem_cons_self with rfl | ⟨rfl, before⟩
  · have taken : a'.take m.request = (.ok c, a'.discard request) := by
      rw [Actor.take, served, pending_eq]
    have emptied : (a'.discard request).holder request = (a.holder request).withSlot none := by
      rw [Actor.holder_discard, if_pos rfl, seen, Holder.withSlot_withSlot]
    have accepts : m.accept a' = ((m.consider (a'.discard request) c).1,
        (m.consider (a'.discard request) c).2, a'.discard request) := by
      simp only [Meeting.accept, counting.collecting, taken]
    have share_eq' : (a'.discard request).share = a.share := share_eq
    rcases counting.consider staffed found share_eq' scheme_eq with
      ⟨share, reception, computed, considered⟩ | ⟨f, refused, considered⟩
    · rw [considered] at accepts
      have kept : m.shares.keys ⊆ (m.shares.insert id share).keys := fun i present =>
        Table.mem_keys_insert.mpr (.inr present)
      exact ⟨_, _, _, accepts, routed.accept found emptied, counting.keep member found computed,
        served, .inl ⟨⟨reception, rfl⟩, (staffed.answers id a share found computed).1⟩,
        fun counted => counted.concat kept fun _ _ _ _ => Table.mem_keys_insert.mpr (.inl rfl)⟩
    · rw [considered] at accepts
      refine ⟨_, _, _, accepts, routed.accept found emptied, counting.bind, served, .inr ?_,
        fun counted => counted.concat (List.Subset.refl _) fun b share found_b computed => ?_⟩
      · rcases staffed.refuses id a f found refused with ⟨rfl, fails⟩ | ⟨rfl, wide⟩
        · exact .inl ⟨⟨_, rfl, rfl⟩, .inr fails⟩
        · exact .inr ⟨rfl, wide⟩
      · rw [found, Option.some.injEq] at found_b
        rw [← found_b, refused] at computed
        cases computed
  · -- Its slot is empty because it has been accepted before.
    have taken : a'.take m.request = (.error (.nothingPending a'.id request), a') := by
      rw [Actor.take, served, pending_eq]
    have accepts : m.accept a' = (.error (.nothingPending a'.id request), m, a') := by
      simp only [Meeting.accept, counting.collecting, taken]
    exact ⟨_, _, _, accepts, routed.accept found seen, counting, served,
      .inr (.inl ⟨⟨_, rfl, rfl⟩, .inl before⟩),
      fun counted => counted.concat (List.Subset.refl _) (counted id before)⟩

/-- Accepting actors one after another counts enough answers, unless an actor cannot check the
ciphertext. -/
theorem acceptAll_spec (staffed : k.Staffed c) {left accepted : List ℤ}
    (counting : m.Counting k c (accepted ++ left)) (served : m.request = request)
    {actors : Table ℤ Actor} (routed : k.Routed c request accepted left actors)
    (counted : m.HasCounted k c accepted) :
    let ended := acceptAll m actors left
    (ended.1 = none ∧ ended.2.1.Collects k c (accepted ++ left)) ∨
      (ended.1 = some .tooBig ∧ c.verify = .error .tooBig ∧
        ∃ id ∈ left, k.actors.contains id = true) := by
  induction left generalizing m accepted actors with
  | nil =>
    refine .inl ⟨rfl, { counting with enough := .inr fun i member => ?_ }⟩
    rw [List.append_nil] at member
    exact counted i member
  | cons id left ih =>
    rw [List.append_cons] at counting ⊢
    rw [acceptAll]
    cases found' : actors.get? id with
    | none =>
      -- There is no such actor.
      have unknown := routed.get?_eq_none found'
      have counted' : m.HasCounted k c (accepted ++ [id]) := by
        refine counted.concat (List.Subset.refl _) fun a share found => ?_
        rw [unknown] at found
        cases found
      refine (ih counting served routed.skip counted').imp_right fun failed => ?_
      obtain ⟨stopped, wide, i, member, known⟩ := failed
      exact ⟨stopped, wide, i, .tail id member, known⟩
    | some a' =>
      obtain ⟨a, found⟩ := routed.exists_get? found'
      obtain ⟨r, m', a'', accepts, routed', counting', served', ends, counted'⟩ :=
        accept_cases staffed counting served (by simp) routed found found'
      dsimp only
      rw [accepts]
      dsimp only
      have continued : (let ended := if m'.hasQuorum then (none, m', actors.insert id a'')
            else acceptAll m' (actors.insert id a'') left
          (ended.1 = none ∧ ended.2.1.Collects k c (accepted ++ [id] ++ left)) ∨
            (ended.1 = some .tooBig ∧ c.verify = .error .tooBig ∧
              ∃ i ∈ id :: left, k.actors.contains i = true)) := by
        by_cases quorum : m'.hasQuorum = true
        · rw [if_pos quorum]
          refine .inl ⟨rfl, { counting' with enough := .inl ?_ }⟩
          rw [Meeting.hasQuorum, decide_eq_true_iff, counting'.material] at quorum
          exact quorum
        · rw [if_neg quorum]
          refine (ih counting' served' routed' (counted' counted)).imp_right fun failed => ?_
          obtain ⟨stopped, wide, i, member, known⟩ := failed
          exact ⟨stopped, wide, i, .tail id member, known⟩
      rcases ends with ⟨⟨reception, rfl⟩, -⟩ | ⟨⟨f, rfl, skipped⟩, -⟩ | ⟨rfl, wide⟩
      · exact continued
      · dsimp only
        rw [if_pos skipped]
        exact continued
      · refine .inr ⟨rfl, wide, id, List.mem_cons_self, ?_⟩
        rw [Table.contains, found]
        rfl

/-- If the ciphertext cannot be checked, the first actor that is there ends the acceptance. -/
theorem acceptAll_of_wide (staffed : k.Staffed c) (wide : c.verify = .error .tooBig)
    {left accepted : List ℤ} (counting : m.Counting k c (accepted ++ left))
    (served : m.request = request) {actors : Table ℤ Actor}
    (routed : k.Routed c request accepted left actors)
    (absent : ∀ i ∈ accepted, k.actors.get? i = none)
    (known : ∃ id ∈ left, k.actors.contains id = true) :
    (acceptAll m actors left).1 = some .tooBig := by
  induction left generalizing accepted with
  | nil =>
    obtain ⟨id, member, -⟩ := known
    cases member
  | cons id left ih =>
    rw [List.append_cons] at counting
    rw [acceptAll]
    cases found' : actors.get? id with
    | none =>
      have unknown := routed.get?_eq_none found'
      refine ih counting routed.skip
        (List.forall_mem_append.mpr ⟨absent, List.forall_mem_singleton.mpr unknown⟩) ?_
      obtain ⟨i, member, known⟩ := known
      refine ⟨i, (List.mem_cons.mp member).resolve_left ?_, known⟩
      rintro rfl
      rw [Table.contains, unknown] at known
      cases known
    | some a' =>
      obtain ⟨a, found⟩ := routed.exists_get? found'
      obtain ⟨r, m', a'', accepts, -, -, -, ends, -⟩ :=
        accept_cases staffed counting served (by simp) routed found found'
      rw [wide] at ends
      rcases ends with ⟨-, holds⟩ | ⟨-, before | fails⟩ | ⟨rfl, -⟩
      · cases holds
      · rw [absent id before] at found
        cases found
      · cases fails
      · dsimp only
        rw [accepts]
        rfl

end Coordinator

/-! ### Counting batches of answers -/

namespace Gathering

/-- Failures are passed over. -/
theorem collectAll_of_failures {g : Gathering} {batch : List Settled}
    (failures : ∀ s ∈ batch, ∃ f, s.reply = .error f) : g.collectAll batch = .ok g := by
  induction batch with
  | nil => rfl
  | cons s batch ih =>
    obtain ⟨⟨f, failed⟩, failures⟩ := List.forall_mem_cons.mp failures
    have passed : g.collect s = .ok g := by simp only [Gathering.collect, failed]
    rw [collectAll, passed, Outcome.bind_ok, ih failures]

end Gathering

namespace Run

open Gathering (Tracks Waits)

variable {k : Coordinator} {c : Ciphertext} {request : String} {asked : List ℤ}
  {actors actors' : Table ℤ Actor} {x x' : Run} {collected : List Settled} {act : Act}

/-- What a run has counted while it takes batches. An actor that answers the ciphertext has answered
it, or it has not been reached yet, or the ciphertext is in its slot. -/
structure Gathers (k : Coordinator) (c : Ciphertext) (request : String) (asked : List ℤ)
    (collected : List Settled) (actors : Table ℤ Actor) (x : Run) : Prop where
  tracks : Tracks k.material request c asked collected x.gathering
  waits : Waits asked collected x.gathering
  settled : ∀ s ∈ collected, x.progress s.position = .settled s.reply
  answers : ∀ id a share, k.actors.get? id = some a → a.compute c = .ok share →
    (∃ p r, asked[p]? = some id ∧ x.progress p = .settled (.ok r)) ∨
      ∀ p, asked[p]? = some id →
        x.progress p = .sent ∨ x.progress p = .arrived ∧ slot actors request id = some c

theorem gathers_start (scheme : k.scheme = .elliptic) (c : Ciphertext) (request : String)
    (asked : List ℤ) : Gathers k c request asked [] k.actors
      (start (.start c asked (k.openMeeting request))) where
  tracks := by
    rw [Coordinator.openMeeting, scheme]
    exact Gathering.tracks_start k.material request c asked
  waits := fun p => by simp [start, Gathering.start]
  settled := List.forall_mem_nil _
  answers := fun id a share found computed => .inr fun p sent => .inl rfl

/-- A right answer of the actor that was asked contributes to the quorum. -/
theorem contributes (staffed : k.Staffed c) {s : Settled} {id : ℤ} {a : Actor}
    {share : DecryptionShare} (sent : asked[s.position]? = some id)
    (found : k.actors.get? id = some a) (computed : a.compute c = .ok share)
    (reply : s.reply = .ok ⟨id, request, c, share⟩) :
    Gathering.Contributes k.material request c asked s id share := by
  obtain ⟨-, range, known⟩ := staffed.own id a found
  obtain ⟨-, own, right⟩ := staffed.answers id a share found computed
  exact ⟨sent, reply, own, range, _, known, right⟩

/-- An answer that a run has got, in terms of the actor that gave it. -/
theorem Sound.exists_actor (sound : Sound k.actors actors x)
    (tracks : Tracks k.material request c asked collected x.gathering) {p : ℕ} {r : ShareResponse}
    (settled : x.progress p = .settled (.ok r)) : ∃ id a share, asked[p]? = some id ∧
      k.actors.get? id = some a ∧ a.compute c = .ok share ∧ r = ⟨id, request, c, share⟩ := by
  have request_eq : x.request = request := tracks.request_eq
  have asked_eq : x.asked = asked := tracks.asked_eq
  obtain ⟨id, holder, share, sent, seen, computed, rfl⟩ := sound.answered p r settled
  rw [request_eq] at seen
  rw [tracks.routed] at computed
  obtain ⟨a, found, rfl⟩ := Option.map_eq_some_iff.mp seen
  exact ⟨id, a, share, asked_eq ▸ sent, found, computed, by rw [request_eq, tracks.routed]⟩

/-- A run that has nothing left to wait for has counted enough answers. -/
theorem Gathers.collects (staffed : k.Staffed c) (sound : Sound k.actors actors x)
    (gathers : Gathers k c request asked collected actors x) (done : x.gathering.isDone = true) :
    x.gathering.meeting.Collects k c asked := by
  have tracks := gathers.tracks
  refine ⟨⟨tracks.material_eq, tracks.elliptic, tracks.collecting, tracks.free, tracks.bound,
    fun i share kept => ?_⟩, ?_⟩
  · obtain ⟨before, s, after, split, contributes, -⟩ := (tracks.counted i share).mp kept
    have settled := gathers.settled s (split ▸ by simp)
    rw [contributes.reply] at settled
    obtain ⟨id, a, share', sent, found, computed, same⟩ := sound.exists_actor tracks settled
    obtain ⟨rfl, -, -, rfl⟩ := ShareResponse.mk.inj same
    exact ⟨List.mem_of_getElem? sent, a, found, computed⟩
  · refine ((tracks.isDone_iff gathers.waits).mp done).imp_right fun all i member a share found
      computed => ?_
    -- Every request is settled, so some request to the actor has brought its answer.
    have answered : ∃ s ∈ collected, ∃ share, Gathering.Contributes k.material request c asked s i
        share := by
      rcases gathers.answers i a share found computed with ⟨p, r, sent, settled⟩ | waiting
      · obtain ⟨below, -⟩ := List.getElem?_eq_some_iff.mp sent
        obtain ⟨s, s_member, rfl⟩ := all p below
        obtain ⟨id, a', share', sent', found', computed', rfl⟩ := sound.exists_actor tracks settled
        obtain rfl := Option.some.inj (sent'.symm.trans sent)
        have reply := (gathers.settled s s_member).symm.trans settled
        rw [Progress.settled.injEq] at reply
        exact ⟨s, s_member, share', contributes staffed sent found' computed' reply⟩
      · obtain ⟨p, below, sent⟩ := List.getElem_of_mem member
        have sent' : asked[p]? = some i := sent ▸ List.getElem?_eq_getElem below
        obtain ⟨s, s_member, rfl⟩ := all p below
        have settled := gathers.settled s s_member
        rcases waiting s.position sent' with still | ⟨still, -⟩
        · rw [settled] at still
          cases still
        · rw [settled] at still
          cases still
    obtain ⟨share', counts⟩ := Gathering.exists_counts_iff.mpr answered
    exact Table.mem_keys_iff.mpr ⟨share', (tracks.counted i share').mpr counts⟩

theorem conclude_eq_decrypt {g : Gathering} (collecting : g.meeting.state = .collecting)
    (done : g.isDone = true) (timeout : Binary64) : g.conclude timeout = g.meeting.decrypt.1 := by
  rw [Gathering.conclude]
  by_cases quorum : g.meeting.hasQuorum = true
  · rw [if_pos quorum]
  · have few : g.meeting.shares.size < g.meeting.material.quorum := by
      simpa [Meeting.hasQuorum] using quorum
    have empty : g.out.isEmpty = true := by
      simpa [Gathering.isDone, quorum] using done
    rw [if_neg quorum, if_pos empty, Meeting.decrypt_of_few collecting few]

/-- An actor as a run sees it, with what is in its slot. -/
theorem Sound.sight_eq (sound : Sound k.actors actors x) {id : ℤ} {a : Actor}
    (found : k.actors.get? id = some a) :
    sight actors x.request id =
      some ((a.holder x.request).withSlot (slot actors x.request id)) := by
  obtain ⟨pending, seen⟩ := sound.holders id
  rw [slot, seen, sight, found]
  rfl

section Step

variable {p : ℕ} {id : ℤ}

/-- When a request makes progress, what has been counted stays settled. -/
theorem Gathers.put (gathers : Gathers k c request asked collected actors x) {progress : Progress}
    (unsettled : ∀ reply, x.progress p ≠ .settled reply)
    (answers : ∀ i a share, k.actors.get? i = some a → a.compute c = .ok share →
      (∀ q, asked[q]? = some i →
        x.progress q = .sent ∨ x.progress q = .arrived ∧ slot actors request i = some c) →
      progress = .settled (.ok ⟨i, request, c, share⟩) ∧ asked[p]? = some i ∨
        ∀ q, asked[q]? = some i → (x.put p progress).progress q = .sent ∨
          (x.put p progress).progress q = .arrived ∧ slot actors' request i = some c) :
    Gathers k c request asked collected actors' (x.put p progress) where
  tracks := gathers.tracks
  waits := gathers.waits
  settled := fun s member => by
    have settled := gathers.settled s member
    have different : s.position ≠ p := fun same => unsettled s.reply (same ▸ settled)
    rw [progress_put_of_ne different, settled]
  answers := fun i a share found computed => by
    rcases gathers.answers i a share found computed with ⟨q, r, sent, settled⟩ | waiting
    · have different : q ≠ p := fun same => unsettled (.ok r) (same ▸ settled)
      exact .inl ⟨q, r, sent, (progress_put_of_ne different).trans settled⟩
    · refine (answers i a share found computed waiting).imp_left fun answered => ?_
      exact ⟨p, _, answered.2, (progress_put_self ..).trans answered.1⟩

/-- The routed ciphertext is in the slot of the actor that is reached. -/
theorem Gathers.contact (sound : Sound k.actors actors x)
    (gathers : Gathers k c request asked collected actors x) (sent : x.progress p = .sent)
    (asked_p : asked[p]? = some id) : Gathers k c request asked collected
      (LocalTransport.contact actors id x.request x.gathering.ciphertext) (x.put p .arrived) := by
  have request_eq : x.request = request := gathers.tracks.request_eq
  have routed : x.gathering.ciphertext = c := gathers.tracks.routed
  rw [request_eq, routed]
  refine gathers.put (fun reply settled => by rw [sent] at settled; cases settled)
    fun i a share found computed waiting => .inr fun q asked_q => ?_
  have seen := sound.sight_eq found
  rw [request_eq] at seen
  have slots : slot (LocalTransport.contact actors id request c) request i =
      if i = id then some c else slot actors request i := by
    rw [slot, sight_contact, slot, seen]
    by_cases same : i = id
    · rw [if_pos ⟨same, rfl⟩, if_pos same]
      rfl
    · rw [if_neg fun both => same both.1, if_neg same]
  by_cases same : q = p
  · subst same
    obtain rfl := Option.some.inj (asked_q.symm.trans asked_p)
    exact .inr ⟨progress_put_self .., slots.trans (if_pos rfl)⟩
  · rw [progress_put_of_ne same]
    refine (waiting q asked_q).imp_right fun arrived => ⟨arrived.1, ?_⟩
    rw [slots, arrived.2, ite_self]

/-- An actor that does not exist gives no answer. -/
theorem Gathers.fail (direct : k.transport.Direct id) (sound : Sound k.actors actors x)
    (gathers : Gathers k c request asked collected actors x) (sent : x.progress p = .sent)
    (asked_p : asked[p]? = some id) {f : Fault}
    (blocked : k.transport.obstacle? actors id = some f) :
    Gathers k c request asked collected actors (x.put p (.settled (.error f))) := by
  refine gathers.put (fun reply settled => by rw [sent] at settled; cases settled)
    fun i a share found computed waiting => .inr fun q asked_q => ?_
  have different : q ≠ p := by
    rintro rfl
    obtain rfl := Option.some.inj (asked_q.symm.trans asked_p)
    rw [direct.obstacle?_eq actors x.request, sound.sight_eq found] at blocked
    cases blocked
  rw [progress_put_of_ne different]
  exact waiting q asked_q

/-- The first answer of an actor is its share for the routed ciphertext. -/
theorem Gathers.answer (direct : k.transport.Direct id) (sound : Sound k.actors actors x)
    (gathers : Gathers k c request asked collected actors x) (arrived : x.progress p = .arrived)
    (asked_p : asked[p]? = some id) : Gathers k c request asked collected
      (k.transport.answer actors id x.request).2
      (x.put p (.settled (k.transport.answer actors id x.request).1)) := by
  have request_eq : x.request = request := gathers.tracks.request_eq
  rw [request_eq]
  refine gathers.put (fun reply settled => by rw [arrived] at settled; cases settled)
    fun i a share found computed waiting => ?_
  have seen := sound.sight_eq found
  rw [request_eq] at seen
  by_cases same : i = id
  · subst same
    refine .inl ⟨congrArg Progress.settled ?_, asked_p⟩
    have filled : slot actors request i = some c := by
      rcases waiting p asked_p with sent | ⟨-, filled⟩
      · rw [sent] at arrived
        cases arrived
      · exact filled
    have responds : ((a.holder request).withSlot (some c)).respond request = .ok (c, share) := by
      rw [Actor.compute_eq_holder a request] at computed
      exact congrArg (Except.map _) computed
    rw [direct.reply, seen, filled]
    dsimp only
    rw [responds]
    rfl
  · refine .inr fun q asked_q => ?_
    have different : q ≠ p := by
      rintro rfl
      exact same (Option.some.inj (asked_q.symm.trans asked_p))
    have slots : slot (k.transport.answer actors id request).2 request i =
        slot actors request i := by
      rw [slot, direct.sight_answer, if_neg fun both => same both.1, slot]
    rw [progress_put_of_ne different, slots]
    exact waiting q asked_q

/-- Counting a batch never fails: without answers there is nothing to check, and with answers the
ciphertext has passed the check. -/
theorem Gathers.take (staffed : k.Staffed c) (sound : Sound k.actors actors x)
    (gathers : Gathers k c request asked collected actors x) {batch : List Settled}
    (settled : ∀ s ∈ batch, x.progress s.position = .settled s.reply) :
    ∃ g, x.gathering.absorb batch = .ok g ∧
      Gathers k c request asked (collected ++ batch) actors { x with gathering := g } := by
  rcases gathers.tracks.absorb gathers.waits staffed.complete batch with
    ⟨g, absorbed, tracks, waits⟩ | ⟨failed, wide⟩
  · exact ⟨g, absorbed, tracks, waits, List.forall_mem_append.mpr ⟨gathers.settled, settled⟩,
      gathers.answers⟩
  · have failures : ∀ s ∈ batch, ∃ f, s.reply = .error f := by
      intro s member
      cases reply : s.reply with
      | error f => exact ⟨f, rfl⟩
      | ok r =>
        have answered := settled s member
        rw [reply] at answered
        obtain ⟨id, a, share, -, found, computed, -⟩ := sound.exists_actor gathers.tracks answered
        have holds := (staffed.answers id a share found computed).1
        rw [wide] at holds
        cases holds
    rw [Gathering.absorb, Gathering.collectAll_of_failures failures] at failed
    cases failed

/-- A step of a run that takes batches keeps account of what it counts, unless the run stops. -/
theorem Gathers.step (staffed : k.Staffed c) (direct : ∀ id ∈ asked, k.transport.Direct id)
    (sound : Sound k.actors actors x) (gathers : Gathers k c request asked collected actors x)
    (gathering : x.stage = .gathering) (step : Step k.transport actors x act actors' x') :
    (x'.stage = .gathering ∧ ∃ collected', Gathers k c request asked collected' actors' x') ∨
      x' = x.close (.ok x.gathering) := by
  have asked_eq : x.asked = asked := gathers.tracks.asked_eq
  cases step with
  | contact _ at_p sent reached =>
    exact .inl ⟨gathering, _, gathers.contact sound sent (asked_eq ▸ at_p)⟩
  | fail _ at_p sent blocked =>
    have at_p : asked[_]? = some _ := asked_eq ▸ at_p
    have direct := direct _ (List.mem_of_getElem? at_p)
    exact .inl ⟨gathering, _, gathers.fail direct sound sent at_p blocked⟩
  | answer at_p arrived answers =>
    have at_p : asked[_]? = some _ := asked_eq ▸ at_p
    have direct := direct _ (List.mem_of_getElem? at_p)
    exact .inl ⟨gathering, _, gathers.answer direct sound arrived at_p⟩
  | take _ waiting settled distinct absorbed =>
    obtain ⟨g, absorbed', gathers'⟩ :=
      gathers.take staffed sound fun s member => (settled s member).2
    obtain rfl := Except.ok.inj (absorbed'.symm.trans absorbed)
    exact .inl ⟨gathering, _, gathers'⟩
  | fault _ waiting settled distinct absorbed =>
    obtain ⟨g, absorbed', -⟩ := gathers.take staffed sound fun s member => (settled s member).2
    rw [absorbed'] at absorbed
    cases absorbed
  | stop => exact .inr rfl
  | discard clearing =>
    rw [gathering] at clearing
    cases clearing

end Step

/-- A run that has stopped with nothing left to wait for has counted enough answers. -/
theorem Steps.gathers {acts : List Act} (staffed : k.Staffed c)
    (direct : ∀ id ∈ asked, k.transport.Direct id)
    (steps : Steps k.transport k.actors (start (.start c asked (k.openMeeting request))) acts
      actors x) :
    (x.stage = .gathering ∧ ∃ collected, Gathers k c request asked collected actors x) ∨
      ∃ g left, x.stage = .clearing (.ok g) left ∧ (g.isDone = true →
        g.meeting.Collects k c asked ∧ ∀ timeout, g.conclude timeout = g.meeting.decrypt.1) := by
  induction steps with
  | refl => exact .inl ⟨rfl, [], gathers_start staffed.scheme c request asked⟩
  | snoc before step ih =>
    rcases ih with ⟨gathering, collected, gathers⟩ | ⟨g, left, clearing, ended⟩
    · have sound := before.sound direct
      rcases gathers.step staffed direct sound gathering step with still | rfl
      · exact .inl still
      · refine .inr ⟨_, _, rfl, fun done => ⟨gathers.collects staffed sound done, ?_⟩⟩
        exact conclude_eq_decrypt gathers.tracks.collecting done
    · -- What was counted when the run stopped is not changed any more.
      cases step with
      | contact gathering | fail gathering | take gathering | fault gathering | stop gathering =>
        rw [clearing] at gathering
        cases gathering
      | answer => exact .inr ⟨g, left, clearing, ended⟩
      | discard clearing' =>
        obtain ⟨rfl, rfl⟩ := Stage.clearing.inj (clearing.symm.trans clearing')
        exact .inr ⟨g, _, rfl, ended⟩

/-- A run that has stopped with nothing left to wait for ends as a meeting that has counted
enough. -/
theorem Steps.exists_collects {acts : List Act} (staffed : k.Staffed c)
    (direct : ∀ id ∈ asked, k.transport.Direct id)
    (steps : Steps k.transport k.actors (start (.start c asked (k.openMeeting request))) acts
      actors x)
    {result : Outcome Gathering} (clearing : x.stage = .clearing result [])
    (done : ∀ g, result = .ok g → g.isDone = true) (timeout : Binary64) :
    ∃ m : Meeting, m.Collects k c asked ∧
      result.bind (fun g : Gathering => g.conclude timeout) = m.decrypt.1 := by
  rcases steps.gathers staffed direct with ⟨gathering, -⟩ | ⟨g, left, clearing', ended⟩
  · rw [gathering] at clearing
    cases clearing
  · obtain ⟨rfl, -⟩ := Stage.clearing.inj (clearing'.symm.trans clearing)
    obtain ⟨collects, concludes⟩ := ended (done g rfl)
    exact ⟨g.meeting, collects, concludes timeout⟩

end Run

namespace Coordinator

variable {k : Coordinator} {parties threshold : ℤ} {draw : ℕ → ℕ} {material : Material}
  {keyShares : List KeyShare}

/-- A request that ends before its deadline ends as a meeting that has counted enough. -/
theorem exists_collects_of_request {c : Ciphertext} (staffed : k.Staffed c) (request : String)
    (ids : Option (List ℤ)) (timeout : Option Binary64)
    (direct : ∀ id ∈ ids.getD (k.select none), k.transport.Direct id)
    (early : (k.request request c ids timeout).2.2 ≠ none) :
    ∃ m : Meeting, m.Collects k c (ids.getD (k.select none)) ∧
      (k.request request c ids timeout).1 = m.decrypt.1 := by
  obtain ⟨x, result, ⟨acts, steps⟩, clearing, outcome, done, -⟩ :=
    k.reaches_request request c ids timeout
  rw [outcome]
  exact steps.exists_collects staffed direct clearing (done early) _

/-- How the actors of a coordinator, accepted one after another, end a decryption. -/
theorem decrypt_cases {c : Ciphertext} (staffed : k.Staffed c) (request : String)
    (ids : Option (List ℤ)) :
    (∃ m : Meeting, m.Collects k c (ids.getD (k.select none)) ∧
      (k.decrypt request c ids).1 = m.decrypt.1) ∨
    (k.decrypt request c ids).1 = .error .tooBig ∧ c.verify = .error .tooBig ∧
      ∃ id ∈ ids.getD (k.select none), k.actors.contains id = true := by
  set asked := ids.getD (k.select none) with asked_eq
  have routed := routed_route k c request asked
  have counting : (k.openMeeting request).Counting k c ([] ++ asked) :=
    Meeting.counting_new staffed.scheme request c asked
  have accepted := acceptAll_spec staffed counting rfl routed (List.forall_mem_nil _)
  rw [decrypt, ← asked_eq]
  generalize acceptAll _ _ _ = ended at accepted ⊢
  obtain ⟨_ | f, m, actors⟩ := ended
  · obtain ⟨-, collects⟩ | ⟨absurd, -⟩ := accepted
    · exact .inl ⟨m, collects, rfl⟩
    · cases absurd
  · obtain ⟨absurd, -⟩ | ⟨same, failed⟩ := accepted
    · cases absurd
    · cases same
      exact .inr ⟨rfl, failed⟩

/-- A request has taken steps until nothing was left to wait for and all inboxes were cleared. -/
def RequestStops (k : Coordinator) (request : String) (c : Ciphertext) (asked : List ℤ)
    (result : Outcome Gathering) : Prop :=
  ∃ acts actors x,
    Run.Steps k.transport k.actors (.start (.start c asked (k.openMeeting request))) acts actors x ∧
      x.stage = .clearing result [] ∧ ∀ g, result = .ok g → g.isDone = true

/-- A request ends in a given way whatever steps it takes and whatever its timeout is, unless its
deadline ends it. -/
def RequestEnds (k : Coordinator) (request : String) (c : Ciphertext) (ids : Option (List ℤ))
    (ending : Outcome Bytes) : Prop :=
  (∀ result timeout, k.RequestStops request c (ids.getD (k.select none)) result →
    result.bind (fun g : Gathering => g.conclude timeout) = ending) ∧
  ∀ timeout, (k.request request c ids timeout).2.2 ≠ none →
    (k.request request c ids timeout).1 = ending

/-- A request ends as the meetings do that have counted enough. -/
theorem requestEnds_of_collects {c : Ciphertext} (staffed : k.Staffed c)
    (plain : k.transport.Plain) (request : String) (ids : Option (List ℤ)) {ending : Outcome Bytes}
    (ends : ∀ m : Meeting, m.Collects k c (ids.getD (k.select none)) → m.decrypt.1 = ending) :
    k.RequestEnds request c ids ending := by
  constructor
  · rintro result timeout ⟨acts, actors, x, steps, clearing, done⟩
    obtain ⟨m, collects, outcome⟩ :=
      steps.exists_collects staffed (fun id _ => plain.direct id) clearing done timeout
    exact outcome.trans (ends m collects)
  · intro timeout early
    obtain ⟨m, collects, outcome⟩ :=
      exists_collects_of_request staffed request ids timeout (fun id _ => plain.direct id) early
    exact outcome.trans (ends m collects)

section Ending

variable (dealt : Dealer.deal parties threshold draw = .ok (k.material, keyShares))
  (small : parties < order) (staff : k.Dealt keyShares) (plain : k.transport.Plain)
  (c : Ciphertext) (ids : Option (List ℤ)) (first second : String)

include dealt small staff plain

/-- Decrypting with the actors one after another and requesting from them over a transport without
detours end alike, whatever actors are asked and in whatever order and batches they answer, as long
as the deadline does not end the request: with the same payload, with the refusal to combine, or
with too few shares, equally many. The check of the ciphertext must not fail with a fault where an
actor is there to make it; it never does when all fields are shorter than `2 ^ 32` bytes. -/
theorem decrypt_eq_request
    (checked : (∃ id ∈ ids.getD (k.select none), k.actors.contains id = true) →
      c.verify ≠ .error .tooBig) :
    let ending := (k.decrypt first c ids).1
    k.RequestEnds second c ids ending ∧
      ((∃ payload, ending = .ok payload) ∨ ending = .error .notCombined ∨
        ∃ count < k.material.quorum, ending = .error (.insufficient count k.material.quorum)) := by
  intro ending
  have staffed := staff.staffed dealt small c
  rcases decrypt_cases staffed first ids with ⟨m, collects, same⟩ | ⟨-, wide, known⟩
  · have ending_eq : ending = m.decrypt.1 := same
    rw [ending_eq]
    exact ⟨requestEnds_of_collects staffed plain second ids fun m' collects' =>
      collects'.agree staffed collects, collects.decrypt_cases⟩
  · exact absurd wide (checked known)

/-- A ciphertext whose check fails with a fault is the exception. The first actor that is there ends
the decryption with that fault, while a request passes every actor over and has no shares. -/
theorem decrypt_of_wide (wide : c.verify = .error .tooBig)
    (known : ∃ id ∈ ids.getD (k.select none), k.actors.contains id = true) :
    (k.decrypt first c ids).1 = .error .tooBig ∧
      k.RequestEnds second c ids (.error (.insufficient 0 k.material.quorum)) := by
  have staffed := staff.staffed dealt small c
  set asked := ids.getD (k.select none) with asked_eq
  refine ⟨?_, requestEnds_of_collects staffed plain second ids fun m collects =>
    collects.decrypt_of_wide staffed wide⟩
  have counting : (k.openMeeting first).Counting k c ([] ++ asked) :=
    Meeting.counting_new staffed.scheme first c asked
  have stopped := acceptAll_of_wide staffed wide counting rfl (routed_route k c first asked)
    (List.forall_mem_nil _) known
  rw [decrypt, ← asked_eq]
  generalize acceptAll _ _ _ = ended at stopped ⊢
  obtain ⟨_, m, actors⟩ := ended
  cases stopped
  rfl

end Ending

/-- A coordinator over the actors with given key shares, with defaults for all other things. -/
def overActors (material : Material) (keyShares : List KeyShare) : Coordinator :=
  ⟨material, default,
    .ofList ((keyShares.map fun s => Actor.new s .elliptic).map fun a => (a.id, a)), .ideal,
    default, 0, .elliptic⟩

theorem dealt_overActors (material : Material) (keyShares : List KeyShare) :
    (overActors material keyShares).Dealt keyShares := dealt_of_actors rfl rfl

/-- Every party of dealt material is one of its actors. -/
theorem contains_overActors
    (dealt : Dealer.deal parties threshold draw = .ok (material, keyShares)) {i : ℕ}
    (below : (i : ℤ) < parties) : (overActors material keyShares).actors.contains i = true := by
  have ids : (((keyShares.map fun s => Actor.new s .elliptic).map fun a => (a.id, a)).map
      Prod.fst) = (List.range parties.toNat).map fun (i : ℕ) => (i : ℤ) := by
    rw [← Dealer.actors_of_deal dealt, List.map_map, List.map_map]
    rfl
  have nodup := (List.nodup_range (n := parties.toNat)).map (Nat.cast_injective (R := ℤ))
  rw [← ids] at nodup
  have member : (i : ℤ) ∈ (overActors material keyShares).actors.keys := by
    rw [Table.keys, overActors, Table.entries_ofList nodup, ids]
    exact List.mem_map_of_mem (List.mem_range.mpr (by omega))
  obtain ⟨a, found⟩ := Table.mem_keys_iff.mp member
  rw [Table.contains, found]
  rfl

/-- Its actors answer at once, so that its requests end before their deadline. -/
theorem time_ne_none_overActors (material : Material) (keyShares : List KeyShare)
    (request : String) (c : Ciphertext) (asked : List ℤ) :
    ((overActors material keyShares).request request c (some asked) none).2.2 ≠ none := by
  have plain : (overActors material keyShares).transport.Plain := rfl
  have soon : Binary64.lt (LocalTransport.seconds 0) Config.tenSeconds = true := by decide +kernel
  exact time_ne_none request c _ none fun id _ => ⟨plain.direct id, List.not_mem_nil, soon⟩

/-- Two actors, one of them asked twice, together with one that does not exist. -/
theorem decrypt_eq_request_two_actors :
    ∃ (k : Coordinator) (c : Ciphertext), c.verify = .ok true ∧
      (k.request "b" c (some [1, 7, 1, 0]) none).2.2 ≠ none ∧
      (k.request "b" c (some [1, 7, 1, 0]) none).1 =
        (k.decrypt "a" c (some [1, 7, 1, 0])).1 := by
  obtain ⟨material, keyShares, dealt⟩ := Gathering.exists_deal_of_zero_draws
  obtain ⟨c, holds, -⟩ := Ciphertext.exists_verify_of_empty_payload
  have early := time_ne_none_overActors material keyShares "b" c [1, 7, 1, 0]
  obtain ⟨⟨-, same⟩, -⟩ := decrypt_eq_request (k := overActors material keyShares) dealt (by decide)
    (dealt_overActors material keyShares) rfl c (some [1, 7, 1, 0]) "a" "b"
    fun _ => by rw [holds]; nofun
  exact ⟨_, c, holds, early, same none early⟩

/-- One actor is asked about a ciphertext with a nonce of `2 ^ 32` bytes: decrypting breaks off, and
a request has no shares. -/
theorem decrypt_ne_request_of_wide_nonce :
    ∃ (material : Material) (keyShares : List KeyShare) (c : Ciphertext),
      Dealer.deal 2 1 (fun _ => 0) = .ok (material, keyShares) ∧ c.nonce.length = 2 ^ 32 ∧
        let k := overActors material keyShares
        (k.decrypt "a" c (some [0])).1 = .error .tooBig ∧
          (k.request "b" c (some [0]) none).2.2 ≠ none ∧
          (k.request "b" c (some [0]) none).1 = .error (.insufficient 0 2) := by
  obtain ⟨material, keyShares, dealt⟩ := Gathering.exists_deal_of_zero_draws
  obtain ⟨c, holds, -⟩ := Ciphertext.exists_verify_of_empty_payload
  let nonce : Bytes := List.replicate (2 ^ 32) 0
  have length : nonce.length = 2 ^ 32 := List.length_replicate
  have early := time_ne_none_overActors material keyShares "b" { c with nonce } [0]
  have known : (overActors material keyShares).actors.contains 0 = true :=
    contains_overActors dealt (i := 0) two_pos
  obtain ⟨ended, -, requested⟩ := decrypt_of_wide (k := overActors material keyShares) dealt
    (by decide) (dealt_overActors material keyShares) rfl { c with nonce } (some [0]) "a" "b"
    (Ciphertext.verify_of_wide holds length.ge) ⟨0, List.mem_singleton_self 0, known⟩
  refine ⟨material, keyShares, { c with nonce }, dealt, length, ended, early, ?_⟩
  have need : (overActors material keyShares).material.quorum = 2 := by
    have := (Dealer.quorum_of_deal dealt).1
    change material.quorum = 2
    omega
  rw [requested none early, need]
  rfl

end Coordinator

end Quorum
