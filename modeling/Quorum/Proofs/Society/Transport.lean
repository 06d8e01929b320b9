import Quorum.Proofs.Society.Request
import Quorum.Society.Coordinator

/-!
# Requests over the local transport

The local transport settles the requests that are out in batches, one at each instant at which an
actor answers. So a coordinator's request ends as a gathering does over some batches of settled
requests, whatever latency, detours and deadline there are.

## Main results

* `LocalTransport.exists_batches_exchange` — an exchange is a run over some batches
* `Coordinator.exists_batches_request` — a request ends as a gathering over some batches
-/

namespace Quorum

namespace LocalTransport

variable {t : LocalTransport} {timeout : Binary64}

/-- Letting time pass is a run over the batches that are settled on the way. -/
theorem exists_batches_pass {x : Exchange} (waiting : x.gathering.isDone = false) (first : Bool)
    (instants : List ℕ) :
    ∃ batches, (t.pass timeout first x instants).result = x.gathering.run batches := by
  induction instants generalizing x first with
  | nil => exact ⟨[], rfl⟩
  | cons now rest ih =>
    rw [pass]
    by_cases late : (!inTime timeout first now) = true
    · rw [if_pos late]
      exact ⟨[], rfl⟩
    · rw [if_neg late]
      dsimp only
      generalize t.advance _ _ _ _ _ = advanced
      obtain ⟨settled, actors⟩ := advanced
      by_cases quiet : settled.isEmpty = true
      · -- Nothing was settled, so the gathering is as it was.
        rw [if_pos quiet]
        exact ih (x := ⟨x.gathering, actors⟩) waiting first
      · rw [if_neg quiet]
        cases absorbed : x.gathering.absorb settled with
        | error f => exact ⟨[settled], by rw [Gathering.run_cons waiting, absorbed]; rfl⟩
        | ok g =>
          dsimp only
          by_cases done : g.isDone = true
          · rw [if_pos done]
            exact ⟨[settled], by rw [Gathering.run_cons waiting, absorbed]; rfl⟩
          · rw [if_neg done]
            obtain ⟨later, ran⟩ := ih (x := ⟨g, actors⟩) (by simpa using done) false
            exact ⟨settled :: later, by rw [ran, Gathering.run_cons waiting, absorbed]; rfl⟩

/-- An exchange is a run over some batches. -/
theorem exists_batches_exchange (x : Exchange) :
    ∃ batches, (t.exchange timeout x).result = x.gathering.run batches := by
  rw [exchange]
  split
  · exact ⟨[], rfl⟩
  · next waiting => exact exists_batches_pass (by simpa using waiting) true _

end LocalTransport

/-- A request ends as a gathering over some batches of settled requests. -/
theorem Coordinator.exists_batches_request (k : Coordinator) (request : String) (c : Ciphertext)
    (ids : Option (List ℤ)) (timeout : Option Binary64) :
    ∃ batches, (k.request request c ids timeout).1 =
      (Gathering.start c (ids.getD (k.select none)) (k.openMeeting request)).outcome
        (timeout.getD k.config.timeout) batches := by
  let start := Gathering.start c (ids.getD (k.select none)) (k.openMeeting request)
  obtain ⟨batches, ran⟩ : ∃ batches, (k.transport.exchange (timeout.getD k.config.timeout)
      ⟨start, k.actors⟩).result = start.run batches :=
    LocalTransport.exists_batches_exchange _
  refine ⟨batches, ?_⟩
  rw [Coordinator.request, Gathering.outcome, ran]
  rfl

end Quorum
