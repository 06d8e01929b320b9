import Mathlib.Data.Finset.SDiff
import Mathlib.Data.Finset.Union
import Quorum.Proofs.Society.Lifecycle
import Quorum.Proofs.Society.Request
import Quorum.Proofs.Society.Setup
import Quorum.Proofs.Threshold.Containment
import Quorum.Society.Coordinator

/-!
# What decrypting leaves in inboxes

A coordinator that decrypts with the actors of its own process first puts the ciphertext into the
inboxes of all actors that it asks, then accepts them one after another, and at the end clears what
it has not used. Accepting an actor empties its slot, whatever becomes of its share, so an inbox is
either as it was before or holds the ciphertext in addition, and nothing is pending once everything
has been cleared.

The coordinator passes over actors that have no share to give and shares that are not right, and
ends early on any other failure. Then it does not clear, and the actors that it would have accepted
later keep the ciphertext. Two things are such a failure: an actor of the society whose public share
cannot be encoded, which happens only with key sets that nobody has dealt, and a ciphertext with a
field that does not fit behind its length.

## Main definitions

* `Coordinator.Ready` — actors under their own ids with nothing pending for a request
* `Coordinator.Filled` — the actors, of whom some hold a ciphertext in addition
* `Coordinator.Stops` — the failures that end a decryption early
* `Coordinator.Hosts` — a meeting that still collects for a request
* `Coordinator.Leaves` — what accepting actors one after another can leave

## Main results

* `Coordinator.Filled.contact`, `Coordinator.Filled.accept`, `Coordinator.Filled.clear` — what the
  steps of a decryption do to inboxes
* `Coordinator.Filled.acceptAll` — what accepting actors one after another does to them
* `Coordinator.decrypt_of_identity` — a decryption that ends on an actor without a public share
* `Coordinator.decrypt_leaves_inboxes` — what a decryption leaves in inboxes
* `Coordinator.decrypt_leaves_ciphertext` — a decryption that leaves a ciphertext behind
-/

namespace Quorum

namespace Actor

variable {a : Actor} {request : String} (fresh : a.pending? request = none) (c : Ciphertext)

theorem receive_receive (a : Actor) (request : String) :
    (a.receive c request).receive c request = a.receive c request := by
  simp only [receive, Table.insert_insert]

include fresh

/-- Discarding what is not there changes nothing. -/
theorem discard_of_fresh : a.discard request = a := by
  rw [discard, Table.erase_of_fresh fresh]

/-- An actor that discards what it has received is as before. -/
theorem discard_receive : (a.receive c request).discard request = a := by
  simp only [discard, receive, Table.erase_insert_of_fresh fresh]

theorem take_of_fresh : a.take request = (.error (.nothingPending a.id request), a) := by
  rw [take, fresh]

/-- So is an actor whose ciphertext is consumed. -/
theorem take_receive : (a.receive c request).take request = (.ok c, a) := by
  have pending : (a.receive c request).pending? request = some c := by
    rw [pending?, receive, Table.get?_insert, if_pos rfl]
  rw [take, pending]
  exact congrArg (Prod.mk _) (discard_receive fresh c)

end Actor

/-- How an actor fails to compute a share: in a way that is passed over, or because the ciphertext
cannot be checked. -/
theorem Actor.isSkipped_of_compute {a : Actor} {c : Ciphertext} {f : Fault}
    (elliptic : a.scheme = .elliptic) (index_nonneg : 0 ≤ a.share.secret.index)
    (failed : a.compute c = .error f) :
    Coordinator.isSkipped f = true ∨ f = .tooBig ∧ c.verify = .error .tooBig := by
  have computed : a.compute c = blamed a.id (Threshold.decryptShare a.share.secret c) := by
    rw [compute, elliptic]
    rfl
  rw [computed] at failed
  cases checked : c.verify with
  | ok holds =>
    left
    rcases Threshold.decryptShare_isOk_or_refused index_nonneg ⟨holds, checked⟩ with
      ⟨share, answered⟩ | refused | refused
    · rw [answered] at failed
      cases failed
    · rw [refused] at failed
      cases failed
      rfl
    · rw [refused] at failed
      cases failed
      rfl
  | error g =>
    obtain ⟨rfl, -⟩ := Ciphertext.eq_tooBig_of_verify checked
    -- The share is looked at before the ciphertext.
    by_cases inRange : 0 < a.share.secret.value ∧ a.share.secret.value < order
    · right
      rw [Threshold.decryptShare, if_neg (not_not.mpr inRange), checked] at failed
      cases failed
      exact ⟨rfl, rfl⟩
    · left
      rw [Threshold.decryptShare, if_pos inRange] at failed
      cases failed
      rfl

/-- A share is not kept because it is not right, or because the ciphertext cannot be checked. -/
theorem Meeting.isSkipped_of_store {m : Meeting} {id : ℤ} {publicShare : Bytes}
    {share : DecryptionShare} {c : Ciphertext} {f : Fault} (elliptic : m.scheme = .elliptic)
    (failed : (m.store id publicShare share c).1 = .error f) :
    Coordinator.isSkipped f = true ∨ f = .tooBig ∧ c.verify = .error .tooBig := by
  unfold store at failed
  split at failed
  · cases failed
    exact .inl rfl
  · split at failed
    · next g wrong =>
      obtain rfl := Except.error.inj failed
      rw [elliptic] at wrong
      exact .inr (Threshold.eq_tooBig_of_verifyShare wrong)
    · cases failed
      exact .inl rfl
    · cases failed

namespace Coordinator

variable {k : Coordinator} {c : Ciphertext} {request : String} {id : ℤ} {a : Actor} {m : Meeting}
  {actors : Table ℤ Actor} {waiting : Finset ℤ}

/-- A coordinator over actors of threshold encryption, each under its own id, of whom none has
anything pending for a request. -/
structure Ready (k : Coordinator) (request : String) : Prop where
  elliptic : k.scheme = .elliptic
  own : ∀ id a, k.actors.get? id = some a → a.id = id
  actor_elliptic : ∀ id a, k.actors.get? id = some a → a.scheme = .elliptic
  index_nonneg : ∀ id a, k.actors.get? id = some a → 0 ≤ a.share.secret.index
  fresh : ∀ id a, k.actors.get? id = some a → a.pending? request = none

/-- The failures on which accepting an actor ends a decryption: the actor is one of the society and
its public share cannot be encoded, or the ciphertext cannot be checked. -/
def Stops (k : Coordinator) (c : Ciphertext) (id : ℤ) (f : Fault) : Prop :=
  (f = .value .identityEncoding ∧ (0 ≤ id ∧ id < k.material.parties) ∧
    k.material.keys.publicShare id = .error f) ∨
  (f = .tooBig ∧ c.verify = .error .tooBig)

/-- The actors of a coordinator, of whom some have received a ciphertext. -/
def Filled (k : Coordinator) (c : Ciphertext) (request : String) (waiting : Finset ℤ)
    (actors : Table ℤ Actor) : Prop :=
  ∀ i, actors.get? i =
    (k.actors.get? i).map fun a => if i ∈ waiting then a.receive c request else a

theorem filled_empty_iff :
    k.Filled c request ∅ actors ↔ ∀ i, actors.get? i = k.actors.get? i := by
  simp [Filled]

namespace Filled

variable (filled : k.Filled c request waiting actors)

include filled

theorem get?_eq_none (unknown : actors.get? id = none) : k.actors.get? id = none := by
  rw [filled id] at unknown
  exact Option.map_eq_none_iff.mp unknown

/-- An actor is as before, or has received the ciphertext. -/
theorem exists_get? {a' : Actor} (found : actors.get? id = some a') :
    ∃ a, k.actors.get? id = some a ∧ a' = if id ∈ waiting then a.receive c request else a := by
  rw [filled id] at found
  obtain ⟨a, known, same⟩ := Option.map_eq_some_iff.mp found
  exact ⟨a, known, same.symm⟩

/-- For an actor that does not exist it makes no difference what it has received. -/
theorem of_unknown {waiting' : Finset ℤ} (unknown : k.actors.get? id = none)
    (others : ∀ i, i ≠ id → (i ∈ waiting' ↔ i ∈ waiting)) : k.Filled c request waiting' actors := by
  intro i
  rw [filled i]
  by_cases same : i = id
  · rw [same, unknown]
    rfl
  · simp only [others i same]

/-- An actor is written back as it was before, or with the ciphertext. -/
theorem write {waiting' : Finset ℤ} (found : k.actors.get? id = some a)
    (others : ∀ i, i ≠ id → (i ∈ waiting' ↔ i ∈ waiting)) :
    k.Filled c request waiting'
      (actors.insert id (if id ∈ waiting' then a.receive c request else a)) := by
  intro i
  rw [Table.get?_insert]
  by_cases same : i = id
  · rw [if_pos same, same, found, Option.map_some]
  · rw [if_neg same, filled i]
    simp only [others i same]

/-- An actor that is contacted has received the ciphertext, also when it is contacted twice. -/
theorem contact (id : ℤ) :
    k.Filled c request (insert id waiting) (LocalTransport.contact actors id request c) := by
  have others : ∀ i, i ≠ id → (i ∈ insert id waiting ↔ i ∈ waiting) := by
    intro i other
    exact Finset.mem_insert.trans (or_iff_right other)
  rw [LocalTransport.contact]
  cases found' : actors.get? id with
  | none => exact filled.of_unknown (filled.get?_eq_none found') others
  | some a' =>
    obtain ⟨a, found, rfl⟩ := filled.exists_get? found'
    have received : (if id ∈ waiting then a.receive c request else a).receive c request =
        a.receive c request := by
      split
      · exact a.receive_receive c request
      · rfl
    have written := filled.write found others
    rw [if_pos (Finset.mem_insert_self id waiting)] at written
    dsimp only
    rwa [received]

theorem route (ids : List ℤ) :
    k.Filled c request (ids.toFinset ∪ waiting) (route c request actors ids) := by
  induction ids generalizing actors waiting with
  | nil =>
    rw [List.toFinset_nil, Finset.empty_union]
    exact filled
  | cons id ids ih =>
    rw [List.toFinset_cons, Finset.insert_union, ← Finset.union_insert]
    exact ih (filled.contact id)

/-- An actor that does not exist is passed over. -/
theorem skip (unknown : k.actors.get? id = none) :
    k.Filled c request (waiting.erase id) actors := by
  apply filled.of_unknown unknown
  intro i other
  exact Finset.mem_erase.trans (and_iff_right other)

/-- An actor whose ciphertext is taken away is as before. -/
theorem accept (found : k.actors.get? id = some a) :
    k.Filled c request (waiting.erase id) (actors.insert id a) := by
  have others : ∀ i, i ≠ id → (i ∈ waiting.erase id ↔ i ∈ waiting) := by
    intro i other
    exact Finset.mem_erase.trans (and_iff_right other)
  have written := filled.write found others
  rwa [if_neg (Finset.notMem_erase id waiting)] at written

/-- Clearing takes the ciphertext from actors that have received it. -/
theorem clear (ready : k.Ready request) (ids : List ℤ) :
    k.Filled c request (waiting \ ids.toFinset) (clear request actors ids) := by
  induction ids generalizing actors waiting with
  | nil =>
    rw [List.toFinset_nil, Finset.sdiff_empty]
    exact filled
  | cons id ids ih =>
    rw [List.toFinset_cons, Finset.sdiff_insert, ← Finset.erase_sdiff_comm, Coordinator.clear,
      List.foldl_cons]
    cases found' : actors.get? id with
    | none => exact ih (filled.skip (filled.get?_eq_none found'))
    | some a' =>
      obtain ⟨a, found, rfl⟩ := filled.exists_get? found'
      have fresh := ready.fresh id a found
      have discarded : (if id ∈ waiting then a.receive c request else a).discard request = a := by
        split
        · exact Actor.discard_receive fresh c
        · exact Actor.discard_of_fresh fresh
      dsimp only
      rw [discarded]
      exact ih (filled.accept found)

end Filled

/-- A meeting that a coordinator holds for a request and that has not ended. -/
structure Hosts (k : Coordinator) (request : String) (m : Meeting) : Prop where
  material : m.material = k.material
  elliptic : m.scheme = .elliptic
  collecting : m.state = .collecting
  request_eq : m.request = request

theorem hosts_openMeeting (ready : k.Ready request) : k.Hosts request (k.openMeeting request) :=
  ⟨rfl, ready.elliptic, rfl, rfl⟩

/-- It goes on collecting whatever becomes of an actor that is accepted. -/
theorem Hosts.accept (hosts : k.Hosts request m) (a : Actor) :
    k.Hosts request (m.accept a).2.1 where
  material := (Meeting.Extends.step (m.step_call (.accept a))).material.trans hosts.material
  elliptic := (Meeting.Extends.step (m.step_call (.accept a))).scheme.trans hosts.elliptic
  collecting := (m.state_accept a).trans hosts.collecting
  request_eq := (m.request_calls [.accept a]).trans hosts.request_eq

/-- Considering an actor fails in a way that is passed over, or ends the decryption. -/
theorem Hosts.consider (hosts : k.Hosts request m) (ready : k.Ready request)
    (found : k.actors.get? id = some a) {f : Fault} (failed : (m.consider a c).1 = .error f) :
    isSkipped f = true ∨ k.Stops c id f := by
  have own := ready.own id a found
  unfold Meeting.consider at failed
  split at failed
  · next g unknown =>
    obtain rfl := Except.error.inj failed
    rw [Meeting.publicShare, hosts.material, own] at unknown
    split at unknown
    · next range =>
      rcases k.material.keys.publicShare_isOk_or_identity range.1 with ⟨b, isOk⟩ | identity
      · rw [isOk] at unknown
        cases unknown
      · rw [identity] at unknown
        cases unknown
        exact .inr (.inl ⟨rfl, range, identity⟩)
    · cases unknown
      exact .inl rfl
  · split at failed
    · cases failed
      exact .inl rfl
    · split at failed
      · cases failed
      · next m' binding =>
        split at failed
        · next g refused =>
          obtain rfl := Except.error.inj failed
          exact (Actor.isSkipped_of_compute (ready.actor_elliptic id a found)
            (ready.index_nonneg id a found) refused).imp_right .inr
        · obtain ⟨-, rfl⟩ := Meeting.bind?_eq_some_iff.mp binding
          have elliptic : { m with bound := some c }.scheme = .elliptic := hosts.elliptic
          exact (Meeting.isSkipped_of_store elliptic failed).imp_right .inr

/-- Accepting an actor takes the ciphertext from it, and fails in a way that is passed over or ends
the decryption. -/
theorem Filled.accepts (filled : k.Filled c request waiting actors) (ready : k.Ready request)
    (hosts : k.Hosts request m) {a' : Actor} (found' : actors.get? id = some a') :
    ∃ a, k.actors.get? id = some a ∧ (m.accept a').2.2 = a ∧
      ∀ f, (m.accept a').1 = .error f → isSkipped f = true ∨ k.Stops c id f := by
  obtain ⟨a, found, rfl⟩ := filled.exists_get? found'
  have fresh := ready.fresh id a found
  refine ⟨a, found, ?_⟩
  split
  · simp only [Meeting.accept, hosts.collecting, hosts.request_eq, Actor.take_receive fresh]
    exact ⟨trivial, fun f failed => hosts.consider ready found failed⟩
  · simp only [Meeting.accept, hosts.collecting, hosts.request_eq, Actor.take_of_fresh fresh]
    refine ⟨trivial, fun f failed => .inl ?_⟩
    obtain rfl := Except.error.inj failed
    rfl

/-- What accepting actors one after another can leave: some still hold the ciphertext, or it ended
on a failure, when the actors up to the one that failed have been accepted, and no other. -/
def Leaves (k : Coordinator) (c : Ciphertext) (request : String) (waiting : Finset ℤ)
    (ids : List ℤ) (ended : Option Fault × Meeting × Table ℤ Actor) : Prop :=
  (ended.1 = none ∧ ∃ rest ⊆ waiting, k.Filled c request rest ended.2.2) ∨
    ∃ before id after f, ids = before ++ id :: after ∧ ended.1 = some f ∧
      k.actors.contains id = true ∧ k.Stops c id f ∧
        k.Filled c request (waiting \ (before ++ [id]).toFinset) ended.2.2

/-- The others are accepted after the first. -/
theorem Leaves.cons {ids : List ℤ} {ended : Option Fault × Meeting × Table ℤ Actor}
    (leaves : k.Leaves c request (waiting.erase id) ids ended) :
    k.Leaves c request waiting (id :: ids) ended := by
  rcases leaves with
    ⟨done, rest, subset, filled⟩ | ⟨before, i, after, f, split, failed, known, stops, filled⟩
  · exact .inl ⟨done, rest, subset.trans (Finset.erase_subset id waiting), filled⟩
  · refine .inr ⟨id :: before, i, after, f, ?_, failed, known, stops, ?_⟩
    · rw [split, List.cons_append]
    · rwa [List.cons_append, List.toFinset_cons, Finset.sdiff_insert, ← Finset.erase_sdiff_comm]

/-- Accepting actors one after another only ever takes the ciphertext from them, and ends on a
failure that is not passed over. -/
theorem Filled.acceptAll (ready : k.Ready request) (hosts : k.Hosts request m)
    (filled : k.Filled c request waiting actors) (ids : List ℤ) :
    k.Leaves c request waiting ids (acceptAll m actors ids) := by
  induction ids generalizing m actors waiting with
  | nil => exact .inl ⟨rfl, waiting, subset_rfl, filled⟩
  | cons id ids ih =>
    rw [Coordinator.acceptAll]
    cases found' : actors.get? id with
    -- An actor that does not exist has not received anything either.
    | none => exact (ih hosts (filled.skip (filled.get?_eq_none found'))).cons
    | some a' =>
      obtain ⟨a, found, emptied, failures⟩ := filled.accepts ready hosts found'
      have hosts' := hosts.accept a'
      have filled' := filled.accept found
      dsimp only
      generalize m.accept a' = accepted at emptied failures hosts' ⊢
      obtain ⟨result, m', a''⟩ := accepted
      dsimp only at emptied failures hosts' ⊢
      subst emptied
      -- Either the meeting has its quorum, or the others are accepted.
      have continued : k.Leaves c request waiting (id :: ids)
          (if m'.hasQuorum then (none, m', actors.insert id a'')
            else Coordinator.acceptAll m' (actors.insert id a'') ids) := by
        split
        · exact .inl ⟨rfl, _, Finset.erase_subset id waiting, filled'⟩
        · exact (ih hosts' filled').cons
      cases result with
      | ok reception => exact continued
      | error f =>
        dsimp only
        split
        · exact continued
        · next loud =>
          refine .inr ⟨[], id, ids, f, rfl, rfl, ?_, (failures f rfl).resolve_left loud, ?_⟩
          · rw [Table.contains, found]
            rfl
          · rwa [List.nil_append, List.toFinset_cons, List.toFinset_nil, Finset.sdiff_insert,
              Finset.sdiff_empty]

/-- After a decryption every inbox is as before, or the decryption ended on a failure, and the
actors that it would have accepted later have received the ciphertext. -/
theorem decrypt_cases_of_ready (ready : k.Ready request) (c : Ciphertext) (ids : Option (List ℤ)) :
    (∀ i, (k.decrypt request c ids).2.actors.get? i = k.actors.get? i) ∨
      ∃ before id after f, ids.getD (k.select none) = before ++ id :: after ∧
        (k.decrypt request c ids).1 = .error f ∧ k.actors.contains id = true ∧ k.Stops c id f ∧
          k.Filled c request (after.toFinset \ (before ++ [id]).toFinset)
            (k.decrypt request c ids).2.actors := by
  have start : k.Filled c request ∅ k.actors := filled_empty_iff.mpr fun _ => rfl
  have leaves := (start.route (ids.getD (k.select none))).acceptAll ready
    (hosts_openMeeting ready) (ids.getD (k.select none))
  unfold decrypt
  dsimp only
  generalize ids.getD (k.select none) = asked at leaves ⊢
  rw [Finset.union_empty] at leaves
  generalize Coordinator.acceptAll _ _ asked = ended at leaves ⊢
  obtain ⟨stopped, m, actors⟩ := ended
  rcases leaves with
    ⟨done, rest, subset, filled⟩ | ⟨before, id, after, f, split, failed, known, stops, filled⟩
  · left
    dsimp only at done filled
    subst done
    -- Nobody holds the ciphertext who is not cleared.
    have cleared := filled.clear ready asked
    rw [Finset.sdiff_eq_empty_iff_subset.mpr subset] at cleared
    exact filled_empty_iff.mp cleared
  · right
    dsimp only at failed filled
    subst failed
    refine ⟨before, id, after, f, split, rfl, known, stops, ?_⟩
    have same : after.toFinset \ (before ++ [id]).toFinset =
        asked.toFinset \ (before ++ [id]).toFinset := by
      ext i
      simp only [split, Finset.mem_sdiff, List.mem_toFinset, List.mem_append, List.mem_cons]
      tauto
    rwa [same]

/-- A decryption that asks an actor without a public share first ends there, and every other actor
that it asks has received the ciphertext. -/
theorem decrypt_of_identity (ready : k.Ready request) (found : k.actors.get? id = some a)
    (range : 0 ≤ id ∧ id < k.material.parties)
    (identity : k.material.keys.publicShare id = .error (.value .identityEncoding))
    (c : Ciphertext) (after : List ℤ) :
    (k.decrypt request c (some (id :: after))).1 = .error (.value .identityEncoding) ∧
      ∀ i, (k.decrypt request c (some (id :: after))).2.actors.get? i =
        (k.actors.get? i).map fun a => if i ≠ id ∧ i ∈ after then a.receive c request else a := by
  have start : k.Filled c request ∅ k.actors := filled_empty_iff.mpr fun _ => rfl
  have filled := start.route (id :: after)
  have hosts := hosts_openMeeting ready
  have found' : (route c request k.actors (id :: after)).get? id = some (a.receive c request) := by
    rw [filled id, found, Option.map_some, if_pos (by simp)]
  have refused : (k.openMeeting request).publicShare a.id = .error (.value .identityEncoding) := by
    rw [Meeting.publicShare, hosts.material, ready.own id a found, if_pos range, identity]
  have accepted : (k.openMeeting request).accept (a.receive c request) =
      (.error (.value .identityEncoding), k.openMeeting request, a) := by
    simp only [Meeting.accept, hosts.collecting, hosts.request_eq,
      Actor.take_receive (ready.fresh id a found), Meeting.consider, refused]
  have ended : acceptAll (k.openMeeting request) (route c request k.actors (id :: after))
      (id :: after) = (some (.value .identityEncoding), k.openMeeting request,
        (route c request k.actors (id :: after)).insert id a) := by
    rw [Coordinator.acceptAll, found']
    dsimp only
    rw [accepted]
    rfl
  unfold decrypt
  dsimp only [Option.getD_some]
  rw [ended]
  refine ⟨rfl, fun i => ?_⟩
  rw [filled.accept found i]
  simp only [Finset.union_empty, Finset.mem_erase, List.mem_toFinset, List.mem_cons]
  by_cases same : i = id <;> simp [same]

/-- New actors are ready for every request. -/
theorem ready_of_actors (keyShares : List KeyShare) (elliptic : k.scheme = .elliptic)
    (actors : k.actors =
      .ofList ((keyShares.map fun s => Actor.new s .elliptic).map fun a => (a.id, a)))
    (nonneg : ∀ s ∈ keyShares, 0 ≤ s.secret.index) (request : String) : k.Ready request := by
  have new : ∀ id a, k.actors.get? id = some a →
      ∃ s ∈ keyShares, a = Actor.new s .elliptic ∧ a.id = id := by
    intro id a found
    rw [actors] at found
    have member := Table.mem_of_get?_ofList found
    simp only [List.map_map, List.mem_map, Function.comp_apply, Prod.mk.injEq] at member
    obtain ⟨s, member, own, rfl⟩ := member
    exact ⟨s, member, rfl, own⟩
  refine ⟨elliptic, ?_, ?_, ?_, ?_⟩
  · intro id a found
    obtain ⟨s, -, -, own⟩ := new id a found
    exact own
  · intro id a found
    obtain ⟨s, -, rfl, -⟩ := new id a found
    rfl
  · intro id a found
    obtain ⟨s, member, rfl, -⟩ := new id a found
    exact nonneg s member
  · intro id a found
    obtain ⟨s, -, rfl, -⟩ := new id a found
    rfl

/-- What a decryption leaves in the inboxes of actors that had nothing pending for its request.
Every inbox is as before, or the decryption ended on an actor without a public share or on a
ciphertext that cannot be checked, and the actors that it would have accepted later have received
the ciphertext. So every inbox is as before, whatever else fails, when every asked actor of the
society has a public share and the fields of the ciphertext fit. -/
theorem decrypt_leaves_inboxes (ready : k.Ready request) (c : Ciphertext) (ids : Option (List ℤ)) :
    let asked := ids.getD (k.select none)
    let actors := (k.decrypt request c ids).2.actors
    ((∀ i, actors.get? i = k.actors.get? i) ∨
      ∃ before id after f, asked = before ++ id :: after ∧
        (k.decrypt request c ids).1 = .error f ∧ k.actors.contains id = true ∧ k.Stops c id f ∧
          ∀ i, actors.get? i = (k.actors.get? i).map fun a =>
            if i ∈ after ∧ i ∉ before ∧ i ≠ id then a.receive c request else a) ∧
    ((∀ i ∈ asked, 0 ≤ i → i < k.material.parties →
        ∃ publicShare, k.material.keys.publicShare i = .ok publicShare) →
      (∀ field ∈ [c.ephemeral, c.nonce, c.sealed, c.commitment], field.length < 2 ^ 32) →
        ∀ i, actors.get? i = k.actors.get? i) := by
  intro asked actors
  have cases := decrypt_cases_of_ready ready c ids
  constructor
  · refine cases.imp_right ?_
    rintro ⟨before, id, after, f, split, failed, known, stops, filled⟩
    refine ⟨before, id, after, f, split, failed, known, stops, fun i => ?_⟩
    rw [filled i]
    simp only [Finset.mem_sdiff, List.mem_toFinset, List.mem_append, List.mem_singleton, not_or,
      ne_eq]
  · intro shared short
    refine cases.resolve_right ?_
    rintro ⟨before, id, after, f, split, -, -, stops, -⟩
    rcases stops with ⟨-, range, identity⟩ | ⟨-, wide⟩
    · have member : id ∈ asked := by
        change id ∈ ids.getD (k.select none)
        rw [split]
        exact List.mem_append_right before List.mem_cons_self
      obtain ⟨publicShare, isOk⟩ := shared id member range.1 range.2
      rw [isOk] at identity
      cases identity
    · obtain ⟨holds, checked⟩ := Ciphertext.verify_isOk short
      rw [checked] at wide
      cases wide

/-- Two dealt actors, one of them asked twice, together with one that does not exist, are left as
they were. -/
theorem decrypt_leaves_inboxes_of_two_actors :
    ∃ (k : Coordinator) (c : Ciphertext), c.verify = .ok true ∧ k.Ready "r" ∧
      k.actors.keys = [0, 1] ∧
      ∀ i, (k.decrypt "r" c (some [1, 7, 1, 0])).2.actors.get? i = k.actors.get? i := by
  obtain ⟨material, keyShares, dealt⟩ := Gathering.exists_deal_of_zero_draws
  obtain ⟨c, holds, -⟩ := Ciphertext.exists_verify_of_empty_payload
  let entries := (keyShares.map fun s => Actor.new s .elliptic).map fun a => (a.id, a)
  let k : Coordinator := ⟨material, default, .ofList entries, .ideal, default, 0, .elliptic⟩
  have ids : keyShares.map KeyShare.actor = [0, 1] := Dealer.actors_of_deal dealt
  have keys : entries.map Prod.fst = [0, 1] := by
    rw [← ids]
    simp only [entries, List.map_map]
    rfl
  have nonneg : ∀ s ∈ keyShares, 0 ≤ s.secret.index := by
    intro s member
    obtain ⟨secret, -⟩ := Dealer.share_of_deal dealt s member
    have actor : s.actor ∈ [0, 1] := ids ▸ List.mem_map_of_mem member
    rw [secret]
    change 0 ≤ s.actor
    simp only [List.mem_cons, List.not_mem_nil, or_false] at actor
    omega
  have ready : k.Ready "r" := ready_of_actors keyShares rfl rfl nonneg "r"
  refine ⟨k, c, holds, ready, ?_, ?_⟩
  · have distinct : (entries.map Prod.fst).Nodup := by
      rw [keys]
      decide
    change (Table.ofList entries).entries.map Prod.fst = [0, 1]
    rw [Table.entries_ofList distinct, keys]
  · obtain ⟨-, clean⟩ := decrypt_leaves_inboxes ready c (some [1, 7, 1, 0])
    refine clean (fun i _ => Dealer.complete_of_deal dealt i) ?_
    exact Ciphertext.short_of_verify holds

/-- The commitments to the line `x - 1` are a key set in which the first actor has no public share.
With two actors and this key set, a decryption that asks both ends on the first one, and the second
one, whose inbox was empty, keeps the ciphertext. -/
theorem decrypt_leaves_ciphertext :
    ∃ (k : Coordinator) (c : Ciphertext) (a : Actor),
      k.material.keys.commitments = [(order : ℤ) - 1, 1].map (fun b => (baseMultiple b).encoded) ∧
      k.material.keys.threshold = 1 ∧ k.material.parties = 2 ∧ k.Ready "r" ∧
      c.verify = .ok true ∧ k.actors.keys = [0, 1] ∧
      k.actors.get? 1 = some a ∧ a.inbox = .empty ∧
      (k.decrypt "r" c (some [0, 1])).1 = .error (.value .identityEncoding) ∧
      (k.decrypt "r" c (some [0, 1])).2.actors.get? 1 = some (a.receive c "r") := by
  have nonzero : ∀ b ∈ [(order : ℤ) - 1, 1], (b : ZMod order) ≠ 0 := by
    have range : ∀ b ∈ [(order : ℤ) - 1, 1], 0 < b ∧ b < order := by decide
    intro b member
    exact Scalar.cast_ne_zero (range b member).1 (range b member).2
  obtain ⟨keys, threshold, commitments, -⟩ := Threshold.exists_keySet le_rfl nonzero
  have identity : keys.publicShare 0 = .error (.value .identityEncoding) := by
    have vanishes : Sharing.evaluate [(order : ℤ) - 1, 1] (0 + 1) = 0 := by decide
    rw [KeySet.publicShare_eq_commit nonzero commitments le_rfl, vanishes,
      Threshold.commit_eq_error Int.cast_zero]
  obtain ⟨c, holds, -⟩ := Ciphertext.exists_verify_of_empty_payload
  have threshold_eq : keys.threshold = 1 := Nat.succ.inj threshold
  let keyShares : List KeyShare := [⟨0, [], ⟨0, 1⟩⟩, ⟨1, [], ⟨1, 1⟩⟩]
  let k : Coordinator := ⟨⟨keys, 2, by omega⟩, default,
    .ofList ((keyShares.map fun s => Actor.new s .elliptic).map fun a => (a.id, a)), .ideal,
    default, 0, .elliptic⟩
  have ready : k.Ready "r" := ready_of_actors keyShares rfl rfl (by decide) "r"
  have first : k.actors.get? 0 = some (Actor.new ⟨0, [], ⟨0, 1⟩⟩ .elliptic) := rfl
  have range : (0 : ℤ) ≤ 0 ∧ (0 : ℤ) < (2 : ℕ) := by decide
  obtain ⟨failed, left⟩ := decrypt_of_identity ready first range identity c [1]
  refine ⟨k, c, Actor.new ⟨1, [], ⟨1, 1⟩⟩ .elliptic, commitments, threshold_eq, rfl, ready, holds,
    rfl, rfl, rfl, failed, ?_⟩
  rw [left 1]
  rfl

end Coordinator

end Quorum
