import Quorum.Proofs.Table
import Quorum.Society.Coordinator

/-!
# What actors hold

Requests fill and empty the inboxes of actors. None of them makes an actor, loses one or touches its
key share.

## Main definitions

* `roster` — the key shares and schemes of actors

## Main results

* `roster_contact`, `roster_answer`, `roster_clear` — a request over the transport leaves the key
  shares as they are
* `roster_route`, `roster_acceptAll` — so does accepting actors one after another
-/

namespace Quorum

/-- The key shares and schemes of actors. -/
def roster (actors : Table ℤ Actor) (id : ℤ) : Option (KeyShare × Scheme) :=
  (actors.get? id).map fun a => (a.share, a.scheme)

section Roster

variable {actors actors' : Table ℤ Actor} {id : ℤ} {a a' : Actor}

/-- With the same key shares every actor is found with its own. -/
theorem exists_of_roster_eq (same : roster actors' = roster actors)
    (found : actors.get? id = some a) :
    ∃ a', actors'.get? id = some a' ∧ a'.share = a.share ∧ a'.scheme = a.scheme := by
  have held := congrFun same id
  rw [roster, roster, found, Option.map_some, Option.map_eq_some_iff] at held
  obtain ⟨a', found', pair⟩ := held
  exact ⟨a', found', Prod.mk.inj pair⟩

theorem contains_of_roster_eq (same : roster actors' = roster actors) (i : ℤ) :
    actors'.contains i = actors.contains i := by
  have held := congrArg Option.isSome (congrFun same i)
  rwa [roster, roster, Option.isSome_map, Option.isSome_map] at held

/-- Writing back an actor with its key share changes no key share. -/
theorem roster_insert (found : actors.get? id = some a) (share : a'.share = a.share)
    (scheme : a'.scheme = a.scheme) : roster (actors.insert id a') = roster actors := by
  funext i
  rw [roster, roster, Table.get?_insert]
  by_cases same : i = id
  · rw [if_pos same, same, found, Option.map_some, Option.map_some, share, scheme]
  · rw [if_neg same]

theorem roster_contact (actors : Table ℤ Actor) (id : ℤ) (request : String) (c : Ciphertext) :
    roster (LocalTransport.contact actors id request c) = roster actors := by
  rw [LocalTransport.contact]
  cases found : actors.get? id with
  | none => rfl
  | some a => exact roster_insert found rfl rfl

theorem roster_route (c : Ciphertext) (request : String) (actors : Table ℤ Actor) (ids : List ℤ) :
    roster (Coordinator.route c request actors ids) = roster actors := by
  induction ids generalizing actors with
  | nil => rfl
  | cons id ids ih => exact (ih _).trans (roster_contact actors id request c)

theorem roster_clear (request : String) (actors : Table ℤ Actor) (ids : List ℤ) :
    roster (Coordinator.clear request actors ids) = roster actors := by
  induction ids generalizing actors with
  | nil => rfl
  | cons id ids ih =>
    rw [Coordinator.clear, List.foldl_cons]
    refine (ih _).trans ?_
    cases found : actors.get? id with
    | none => rfl
    | some a => exact roster_insert found rfl rfl

/-- What an actor consumes does not touch its key share. -/
theorem Actor.take_same (a : Actor) (request : String) :
    (a.take request).2.share = a.share ∧ (a.take request).2.scheme = a.scheme := by
  rw [Actor.take]
  cases a.pending? request <;> exact ⟨rfl, rfl⟩

theorem Actor.respond_same (a : Actor) (request : String) :
    (a.respond request).2.share = a.share ∧ (a.respond request).2.scheme = a.scheme := by
  have same := a.take_same request
  rw [Actor.respond]
  generalize a.take request = taken at same ⊢
  obtain ⟨_ | c, a'⟩ := taken <;> exact same

theorem roster_answer (t : LocalTransport) (actors : Table ℤ Actor) (id : ℤ) (request : String) :
    roster (t.answer actors id request).2 = roster actors := by
  rw [LocalTransport.answer]
  cases t.obstacle? actors id with
  | some f => rfl
  | none =>
    cases found : actors.get? id with
    | none => rfl
    | some a =>
      obtain ⟨share, scheme⟩ := a.respond_same request
      exact roster_insert found share scheme

/-- A meeting that accepts an actor leaves it its key share. -/
theorem Meeting.accept_same (m : Meeting) (a : Actor) :
    (m.accept a).2.2.share = a.share ∧ (m.accept a).2.2.scheme = a.scheme := by
  have same := a.take_same m.request
  rw [Meeting.accept]
  cases m.state with
  | resolved => exact ⟨rfl, rfl⟩
  | collecting =>
    generalize a.take m.request = taken at same ⊢
    obtain ⟨_ | c, a'⟩ := taken <;> exact same

theorem roster_acceptAll (m : Meeting) (actors : Table ℤ Actor) (ids : List ℤ) :
    roster (Coordinator.acceptAll m actors ids).2.2 = roster actors := by
  induction ids generalizing m actors with
  | nil => rfl
  | cons id ids ih =>
    rw [Coordinator.acceptAll]
    cases found : actors.get? id with
    | none => exact ih m actors
    | some a =>
      obtain ⟨share, scheme⟩ := m.accept_same a
      have written := roster_insert found share scheme
      dsimp only
      -- The next actor is accepted, or this was the last one.
      cases (m.accept a).1 with
      | ok reception =>
        dsimp only
        split
        · exact written
        · exact (ih _ _).trans written
      | error f =>
        dsimp only
        split
        · split
          · exact written
          · exact (ih _ _).trans written
        · exact written

end Roster

end Quorum
