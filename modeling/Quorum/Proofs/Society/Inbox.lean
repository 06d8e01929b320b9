import Quorum.Proofs.Table
import Quorum.Society.Coordinator

/-!
# Actors as one request sees them

The steps of a request touch one slot in the inboxes of actors: the one under its own id. What they
find there and leave there does not depend on the slots of other requests.

## Main definitions

* `Holder`, `sight` — actors with the slot of one request
* `LocalTransport.Plain` — a transport without detours
* `LocalTransport.Direct` — requests to an actor are at most delayed

## Main results

* `sight_contact`, `LocalTransport.Direct.sight_answer`, `sight_clear` — what the steps of a request
  do to slots
* `LocalTransport.Direct.reply` — an answer depends on the slot of its request alone
-/

namespace Quorum

/-- An actor as one request sees it: its key share and scheme, and what is pending for the
request. -/
structure Holder where
  share : KeyShare
  scheme : Scheme
  /-- The ciphertext in the slot of the request. -/
  pending : Option Ciphertext

namespace Holder

/-- The holder with a ciphertext in its slot, or with an empty slot. -/
def withSlot (h : Holder) (pending : Option Ciphertext) : Holder := { h with pending }

@[simp] theorem withSlot_withSlot (h : Holder) (p q : Option Ciphertext) :
    (h.withSlot p).withSlot q = h.withSlot q := rfl

/-- The holder's share for a ciphertext. -/
def compute (h : Holder) (c : Ciphertext) : Outcome DecryptionShare :=
  Actor.blamed h.share.actor (h.scheme.decryptShare h.share.secret c)

/-- The holder's answer to what is in its slot. -/
def respond (h : Holder) (request : String) : Outcome (Ciphertext × DecryptionShare) :=
  match h.pending with
  | none => .error (.nothingPending h.share.actor request)
  | some c => (h.compute c).map fun share => (c, share)

end Holder

namespace Actor

/-- An actor as a request sees it. -/
def holder (a : Actor) (request : String) : Holder := ⟨a.share, a.scheme, a.pending? request⟩

theorem compute_eq_holder (a : Actor) (request : String) : a.compute = (a.holder request).compute :=
  rfl

variable (a : Actor) (c : Ciphertext) (request other : String)

theorem holder_receive : (a.receive c request).holder other =
    if other = request then (a.holder other).withSlot (some c) else a.holder other := by
  by_cases same : other = request <;>
    simp [holder, receive, pending?, Table.get?_insert, Holder.withSlot, same]

theorem holder_discard : (a.discard request).holder other =
    if other = request then (a.holder other).withSlot none else a.holder other := by
  by_cases same : other = request <;>
    simp [holder, discard, pending?, Table.get?_erase, Holder.withSlot, same]

theorem respond_eq_holder : (a.respond request).1 = (a.holder request).respond request ∧
    (a.respond request).2.holder other =
      if other = request then (a.holder other).withSlot none else a.holder other := by
  unfold respond take Holder.respond
  cases pending : a.pending? request with
  | some c =>
    have found : (a.holder request).pending = some c := pending
    rw [found]
    exact ⟨rfl, holder_discard a request other⟩
  | none =>
    have empty : (a.holder request).pending = none := pending
    rw [empty]
    refine ⟨rfl, ?_⟩
    -- The slot was empty before.
    by_cases same : other = request
    · subst same
      have unchanged : (a.holder other).withSlot none = a.holder other := by
        rw [← empty]
        rfl
      rw [if_pos rfl, unchanged]
    · rw [if_neg same]

end Actor

/-- The actors as a request sees them. -/
def sight (actors : Table ℤ Actor) (request : String) (id : ℤ) : Option Holder :=
  (actors.get? id).map (·.holder request)

section Sight

variable {actors : Table ℤ Actor} {a : Actor} {id : ℤ}

theorem sight_insert (actors : Table ℤ Actor) (id : ℤ) (a : Actor) (request : String) (i : ℤ) :
    sight (actors.insert id a) request i =
      if i = id then some (a.holder request) else sight actors request i := by
  rw [sight, Table.get?_insert, apply_ite (Option.map _)]
  rfl

/-- Writing back an actor with another slot for one request changes nothing else. -/
theorem sight_insert_of_slot {request : String} {pending : Option Ciphertext} {a' : Actor}
    (found : actors.get? id = some a) (slot : ∀ other, a'.holder other =
      if other = request then (a.holder other).withSlot pending else a.holder other)
    (other : String) (i : ℤ) : sight (actors.insert id a') other i =
      if i = id ∧ other = request then (sight actors other i).map (·.withSlot pending)
      else sight actors other i := by
  rw [sight_insert]
  by_cases same : i = id
  · subst same
    have seen : sight actors other i = some (a.holder other) := by
      rw [sight, found, Option.map_some]
    rw [if_pos rfl, seen, slot]
    by_cases own : other = request
    · simp [own]
    · simp [own]
  · rw [if_neg same, if_neg fun both => same both.1]

/-- A ciphertext goes into the slot of its request at the actor that is contacted. -/
theorem sight_contact (actors : Table ℤ Actor) (id : ℤ) (request : String) (c : Ciphertext)
    (other : String) (i : ℤ) : sight (LocalTransport.contact actors id request c) other i =
      if i = id ∧ other = request then (sight actors other i).map (·.withSlot (some c))
      else sight actors other i := by
  rw [LocalTransport.contact]
  cases found : actors.get? id with
  | some a => exact sight_insert_of_slot found (a.holder_receive c request) other i
  | none =>
    -- There is no such actor to be seen.
    by_cases both : i = id ∧ other = request
    · rw [if_pos both, sight, both.1, found]
      rfl
    · rw [if_neg both]

/-- Clearing empties the slots of a request at the given actors. -/
theorem sight_clear (request : String) (actors : Table ℤ Actor) (ids : List ℤ) (other : String)
    (i : ℤ) : sight (Coordinator.clear request actors ids) other i =
      if i ∈ ids ∧ other = request then (sight actors other i).map (·.withSlot none)
      else sight actors other i := by
  induction ids generalizing actors with
  | nil => rw [if_neg fun both => List.not_mem_nil both.1]; rfl
  | cons id ids ih =>
    have first : sight (Coordinator.clear request actors [id]) other i =
        if i = id ∧ other = request then (sight actors other i).map (·.withSlot none)
        else sight actors other i := by
      simp only [Coordinator.clear, List.foldl_cons, List.foldl_nil]
      cases found : actors.get? id with
      | some a => exact sight_insert_of_slot found (a.holder_discard request) other i
      | none =>
        by_cases both : i = id ∧ other = request
        · rw [if_pos both, sight, both.1, found]
          rfl
        · rw [if_neg both]
    have split : Coordinator.clear request actors (id :: ids) =
        Coordinator.clear request (Coordinator.clear request actors [id]) ids := rfl
    rw [split, ih, first]
    by_cases own : other = request
    · by_cases same : i = id
      · by_cases later : i ∈ ids <;>
          simp [own, same, Option.map_map, Function.comp_def]
      · simp [own, same]
    · simp [own]

end Sight

namespace LocalTransport

/-- A transport without detours. -/
def Plain (t : LocalTransport) : Prop := t.detours = .empty

/-- A request to an actor meets no failure on its way and its answer is not changed; both may be
delayed. -/
structure Direct (t : LocalTransport) (id : ℤ) : Prop where
  passes : (t.detour id).failure = none
  unchanged : (t.detour id).change = .ok

variable {t : LocalTransport} {id : ℤ}

theorem Plain.detour (plain : t.Plain) (id : ℤ) : t.detour id = .straight := by
  rw [LocalTransport.detour, plain, Table.get?_empty, Option.getD_none]

theorem Plain.direct (plain : t.Plain) (id : ℤ) : t.Direct id :=
  ⟨congrArg Detour.failure (plain.detour id), congrArg Detour.change (plain.detour id)⟩

theorem Direct.obstacle? (direct : t.Direct id) (actors : Table ℤ Actor) :
    t.obstacle? actors id = if actors.contains id then none else some (.unreachable id) := by
  rw [LocalTransport.obstacle?, direct.passes]

/-- Nothing but a missing actor is an obstacle. -/
theorem Direct.obstacle?_eq (direct : t.Direct id) (actors : Table ℤ Actor) (request : String) :
    t.obstacle? actors id =
      if (sight actors request id).isSome then none else some (.unreachable id) := by
  rw [direct.obstacle?, Table.contains, sight, Option.isSome_map]

/-- An answer depends on the slot of its request alone. -/
theorem Direct.reply (direct : t.Direct id) (actors : Table ℤ Actor) (request : String) :
    (t.answer actors id request).1 =
      match sight actors request id with
      | none => .error (.unreachable id)
      | some h => (h.respond request).map fun r => ⟨id, request, r.1, r.2⟩ := by
  rw [answer, direct.obstacle?_eq actors request]
  cases found : actors.get? id with
  | none =>
    have unseen : sight actors request id = none := by rw [sight, found, Option.map_none]
    rw [unseen]
    rfl
  | some a =>
    have seen : sight actors request id = some (a.holder request) := by
      rw [sight, found, Option.map_some]
    rw [seen]
    dsimp only [Option.isSome_some, if_true]
    rw [if_pos rfl]
    dsimp only
    rw [(a.respond_eq_holder request request).1, LocalTransport.respond.eq_def, direct.unchanged]
    cases (a.holder request).respond request <;> rfl

/-- An answer empties the slot of its request. -/
theorem Direct.sight_answer (direct : t.Direct id) (actors : Table ℤ Actor) (request : String)
    (other : String) (i : ℤ) : sight (t.answer actors id request).2 other i =
      if i = id ∧ other = request then (sight actors other i).map (·.withSlot none)
      else sight actors other i := by
  rw [answer, direct.obstacle?, Table.contains]
  cases found : actors.get? id with
  | none =>
    have same : sight actors other id = none := by rw [sight, found, Option.map_none]
    by_cases both : i = id ∧ other = request
    · rw [if_pos both, both.1, same]
      exact same
    · rw [if_neg both]
      rfl
  | some a =>
    exact sight_insert_of_slot found (fun other => (a.respond_eq_holder request other).2) other i

end LocalTransport

end Quorum
