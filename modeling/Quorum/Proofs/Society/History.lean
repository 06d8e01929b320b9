import Quorum.Proofs.Society.Timeline

/-!
# What a coordinator keeps

Decrypting moves ciphertexts in and out of inboxes, and forwarding fills the outboxes of the
transport. Whatever a coordinator has been asked to do, it has its material, its settings and its
channel keys as before, and the same actors with the same key shares.

## Main definitions

* `Coordinator.Call`, `Coordinator.calls` — runs of calls
* `Coordinator.Continues` — what a later state of a coordinator has in common with an earlier one

## Main results

* `Run.Step.roster_eq` — a step of a request leaves the key shares as they are
* `Coordinator.continues_call`, `Coordinator.continues_calls` — what every run of calls preserves
-/

namespace Quorum

namespace Run

variable {t : LocalTransport} {actors actors' : Table ℤ Actor} {x x' : Run} {act : Act}

/-- A step of a request leaves the key shares as they are. -/
theorem Step.roster_eq (step : Step t actors x act actors' x') :
    roster actors' = roster actors := by
  cases step with
  | contact => exact roster_contact ..
  | answer => exact roster_answer ..
  | discard => exact roster_clear ..
  | fail | take | fault | stop => rfl

theorem Steps.roster_eq {acts : List Act} (steps : Steps t actors x acts actors' x') :
    roster actors' = roster actors := by
  induction steps with
  | refl => rfl
  | snoc before step ih => exact step.roster_eq.trans ih

end Run

namespace Coordinator

/-- Something that is done with a coordinator. -/
inductive Call where
  /-- It decrypts with the actors in the same process. -/
  | decrypt (request : String) (c : Ciphertext) (ids : Option (List ℤ))
  /-- It decrypts over the transport. -/
  | request (request : String) (c : Ciphertext) (ids : Option (List ℤ)) (timeout : Option Binary64)
  /-- It seals a payload for a recipient. -/
  | forward (d : Directory) (payload : Bytes) (recipient : String) (key : Option Bytes)
      (nonce : Bytes)
  /-- It decrypts over the transport for a recipient. -/
  | decryptFor (d : Directory) (request : String) (c : Ciphertext) (recipient : String)
      (key : Option Bytes) (timeout : Option Binary64) (nonce : Bytes)
  /-- It is given another transport. -/
  | use (t : LocalTransport)

/-- The coordinator after a call, whether the call returns or fails. -/
def call (k : Coordinator) : Call → Coordinator
  | .decrypt request c ids => (k.decrypt request c ids).2
  | .request request c ids timeout => (k.request request c ids timeout).2.1
  | .forward d payload recipient key nonce => (k.forward d payload recipient key nonce).2
  | .decryptFor d request c recipient key timeout nonce =>
    (k.decryptFor d request c recipient key timeout nonce).2.1
  | .use t => { k with transport := t }

/-- The coordinator after a run of calls. -/
def calls (k : Coordinator) (run : List Call) : Coordinator := run.foldl call k

/-- A later state of a coordinator: its actors may have other inboxes, and its transport may have
changed. -/
structure Continues (k k' : Coordinator) : Prop where
  material : k'.material = k.material
  config : k'.config = k.config
  keys : k'.keys = k.keys
  scheme : k'.scheme = k.scheme
  roster : roster k'.actors = roster k.actors

variable {k k' k'' : Coordinator}

theorem Continues.refl (k : Coordinator) : Continues k k := ⟨rfl, rfl, rfl, rfl, rfl⟩

theorem Continues.trans (first : Continues k k') (second : Continues k' k'') :
    Continues k k'' where
  material := second.material.trans first.material
  config := second.config.trans first.config
  keys := second.keys.trans first.keys
  scheme := second.scheme.trans first.scheme
  roster := second.roster.trans first.roster

theorem continues_decrypt (k : Coordinator) (request : String) (c : Ciphertext)
    (ids : Option (List ℤ)) : Continues k (k.decrypt request c ids).2 := by
  rw [Coordinator.decrypt]
  have accepted := (roster_acceptAll (k.openMeeting request)
    (route c request k.actors (ids.getD (k.select none))) (ids.getD (k.select none))).trans
      (roster_route ..)
  generalize acceptAll _ _ _ = ended at accepted ⊢
  obtain ⟨_ | f, m, actors⟩ := ended
  · exact ⟨rfl, rfl, rfl, rfl, (roster_clear ..).trans accepted⟩
  · exact ⟨rfl, rfl, rfl, rfl, accepted⟩

theorem continues_request (k : Coordinator) (request : String) (c : Ciphertext)
    (ids : Option (List ℤ)) (timeout : Option Binary64) :
    Continues k (k.request request c ids timeout).2.1 := by
  obtain ⟨x, result, ⟨acts, steps⟩, -⟩ := k.reaches_request request c ids timeout
  exact ⟨rfl, rfl, rfl, rfl, steps.roster_eq⟩

/-- A payload is forwarded by handing the sealed message to the transport, or nothing happens. -/
theorem forward_cases (k : Coordinator) (d : Directory) (payload : Bytes) (recipient : String)
    (key : Option Bytes) (nonce : Bytes) :
    (∃ f, k.forward d payload recipient key nonce = (.error f, k)) ∨
      ∃ m, k.forward d payload recipient key nonce =
        (.ok m, { k with transport := k.transport.deliver recipient m.toBytes }) := by
  unfold forward
  dsimp only
  generalize Except.bind _ _ = outcome
  cases outcome with
  | error f => exact .inl ⟨f, rfl⟩
  | ok m => exact .inr ⟨m, rfl⟩

theorem continues_forward (k : Coordinator) (d : Directory) (payload : Bytes) (recipient : String)
    (key : Option Bytes) (nonce : Bytes) :
    Continues k (k.forward d payload recipient key nonce).2 := by
  rcases k.forward_cases d payload recipient key nonce with ⟨f, failed⟩ | ⟨m, forwarded⟩
  · rw [failed]
    exact .refl k
  · rw [forwarded]
    exact ⟨rfl, rfl, rfl, rfl, rfl⟩

theorem continues_decryptFor (k : Coordinator) (d : Directory) (request : String) (c : Ciphertext)
    (recipient : String) (key : Option Bytes) (timeout : Option Binary64) (nonce : Bytes) :
    Continues k (k.decryptFor d request c recipient key timeout nonce).2.1 := by
  have requested := k.continues_request request c none timeout
  rw [Coordinator.decryptFor]
  generalize k.request request c none timeout = ended at requested ⊢
  obtain ⟨_ | payload, k', time⟩ := ended
  · exact requested
  · exact requested.trans (k'.continues_forward d payload recipient key nonce)

/-- Every call leaves a coordinator its society. -/
theorem continues_call (k : Coordinator) (call : Call) : Continues k (k.call call) := by
  cases call with
  | decrypt => exact k.continues_decrypt ..
  | request => exact k.continues_request ..
  | forward => exact k.continues_forward ..
  | decryptFor => exact k.continues_decryptFor ..
  | use => exact ⟨rfl, rfl, rfl, rfl, rfl⟩

/-- Every run of calls leaves a coordinator its society. -/
theorem continues_calls (k : Coordinator) (run : List Call) : Continues k (k.calls run) := by
  induction run generalizing k with
  | nil => exact .refl k
  | cons call run ih => exact (k.continues_call call).trans (ih (k.call call))

end Coordinator

end Quorum
