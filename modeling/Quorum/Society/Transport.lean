import Quorum.Society.Request

/-!
# The local transport

The transport between a coordinator and actors in the same process. A request first travels to its
actor, which puts the ciphertext into its inbox; after the latency the actor answers. An actor that
cannot be reached keeps the ciphertext and never answers. For trying out bad networks every actor
can be given a detour: a delay, a failure, or a change of its answers.

Time is counted in milliseconds from the start of a request, and computing takes none of it.

## Main definitions

* `Detour` — what happens to the requests of one actor
* `LocalTransport` — unreachable actors, latency, detours and the outbox
* `LocalTransport.contact`, `LocalTransport.answer` — the two ends of a request
* `LocalTransport.deliver` — hands a payload to a recipient
* `Exchange` — a gathering in progress with the actors it talks to
* `LocalTransport.exchange` — a whole request until quorum, settlement or deadline
* `LocalTransport.requestOne` — one request with a deadline
-/

namespace Quorum

/-- What happens to the requests of one actor. -/
structure Detour where
  /-- The delay before the actor is contacted, in milliseconds. -/
  delay : Nat
  /-- A failure instead of contacting the actor. -/
  failure : Option Fault
  /-- A change of the actor's answer. -/
  change : ShareResponse → Outcome ShareResponse
deriving Inhabited

/-- No delay, no failure, no change. -/
def Detour.straight : Detour := ⟨0, none, .ok⟩

/-- The transport between a coordinator and its actors. -/
structure LocalTransport where
  /-- The actors that never answer. -/
  unreachable : List Int
  /-- The time between contact and answer, in milliseconds. -/
  latency : Nat
  /-- The detours of actors. -/
  detours : Table Int Detour
  /-- The payloads that were delivered to each recipient. -/
  outbox : Table String (List Bytes)
deriving Inhabited

namespace LocalTransport

/-- A transport on which everyone can be reached at once. -/
def ideal : LocalTransport := ⟨[], 0, .empty, .empty⟩

/-- The detour of an actor. -/
def detour (t : LocalTransport) (id : Int) : Detour := (t.detours.get? id).getD .straight

/-- Hands a payload to a recipient. -/
def deliver (t : LocalTransport) (recipient : String) (payload : Bytes) : LocalTransport :=
  { t with outbox := t.outbox.insert recipient ((t.outbox.get? recipient).getD [] ++ [payload]) }

/-- When an actor is contacted. -/
def contactTime (t : LocalTransport) (id : Int) : Nat := (t.detour id).delay

/-- What contacting an actor fails with: the failure of its detour, or there is no such actor. -/
def obstacle? (t : LocalTransport) (actors : Table Int Actor) (id : Int) : Option Fault :=
  match (t.detour id).failure with
  | some f => some f
  | none => if actors.contains id then none else some (.unreachable id)

/-- When the request to an actor is settled, if it ever is. -/
def settleTime? (t : LocalTransport) (actors : Table Int Actor) (id : Int) : Option Nat :=
  if (t.obstacle? actors id).isSome then some (t.contactTime id)
  else if t.unreachable.contains id then none
  else some (t.contactTime id + t.latency)

/-- The actors after one of them got a ciphertext for a request. -/
def contact (actors : Table Int Actor) (id : Int) (request : String) (c : Ciphertext) :
    Table Int Actor :=
  match actors.get? id with
  | some a => actors.insert id (a.receive c request)
  | none => actors

/-- The response that an actor's answer makes, through its detour. -/
def respond (t : LocalTransport) (id : Int) (request : String) :
    Outcome (Ciphertext × DecryptionShare) → Outcome ShareResponse
  | .ok (c, share) => (t.detour id).change ⟨id, request, c, share⟩
  | .error f => .error f

/-- The answer of an actor to a request, and the actors after it. -/
def answer (t : LocalTransport) (actors : Table Int Actor) (id : Int) (request : String) :
    Outcome ShareResponse × Table Int Actor :=
  match t.obstacle? actors id with
  | some f => (.error f, actors)
  | none =>
    match actors.get? id with
    | none => (.error (.unreachable id), actors)
    | some a =>
      let (r, a') := a.respond request
      (t.respond id request r, actors.insert id a')

end LocalTransport

/-- A gathering in progress with the actors it talks to. -/
structure Exchange where
  /-- What has been counted. -/
  gathering : Gathering
  /-- The actors with their inboxes. -/
  actors : Table Int Actor

/-- The end of an exchange. -/
structure Ending where
  /-- What was counted, or what stopped the counting. -/
  result : Outcome Gathering
  /-- The actors with their inboxes. -/
  actors : Table Int Actor
  /-- When the exchange ended, in milliseconds; `none` when the deadline ended it. -/
  time : Option Nat

namespace LocalTransport

/-- Contacts the actors whose contact time has come and lets those answer whose answers are due;
gives the settled requests in the order of their positions. -/
def advance (t : LocalTransport) (request : String) (c : Ciphertext) (now : Nat) :
    (actors : Table Int Actor) → List (Nat × Int) → List Settled × Table Int Actor
  | actors, [] => ([], actors)
  | actors, (position, id) :: rest =>
    -- A request of this instant reaches the inbox before any answer of the same actor.
    let contacted :=
      if t.contactTime id = now ∧ t.obstacle? actors id = none then contact actors id request c
      else actors
    if t.settleTime? actors id = some now then
      let (reply, answered) := t.answer contacted id request
      let (settled, actors') := advance t request c now answered rest
      (⟨position, reply⟩ :: settled, actors')
    else advance t request c now contacted rest

/-- The instants at which something happens, in order. -/
def instants (t : LocalTransport) (actors : Table Int Actor) (asked : List Int) : List Nat :=
  let times := asked.flatMap fun id => t.contactTime id :: (t.settleTime? actors id).toList
  (times.mergeSort fun i j => i ≤ j).eraseDups

/-- A time in milliseconds as a number of seconds. -/
def seconds (ms : Nat) : Binary64 := .ofRatio false ms 1000

/-- Whether an instant comes before the deadline. The first deadline is set before the requests go
out and precedes answers that are due with it; later ones are set anew after each batch and follow
them. -/
def inTime (timeout : Binary64) (first : Bool) (ms : Nat) : Bool :=
  Binary64.lt (seconds ms) timeout || (!first && seconds ms == timeout)

/-- Lets time pass from instant to instant until there is nothing to wait for or the deadline
strikes. -/
def pass (t : LocalTransport) (timeout : Binary64) : (first : Bool) → Exchange → List Nat → Ending
  | _, x, [] => ⟨.ok x.gathering, x.actors, none⟩
  | first, x, now :: rest =>
    if !inTime timeout first now then ⟨.ok x.gathering, x.actors, none⟩
    else
      let g := x.gathering
      let waiting := g.out.filterMap fun i => g.asked[i]?.map fun id => (i, id)
      let (settled, actors) := t.advance g.meeting.request g.ciphertext now x.actors waiting
      -- An instant at which actors are only contacted wakes nobody, so the deadline stays.
      if settled.isEmpty then t.pass timeout first ⟨g, actors⟩ rest
      else
        match g.absorb settled with
        | .error f => ⟨.error f, actors, some now⟩
        | .ok g =>
          if g.isDone then ⟨.ok g, actors, some now⟩ else t.pass timeout false ⟨g, actors⟩ rest

/-- A whole request. -/
def exchange (t : LocalTransport) (timeout : Binary64) (x : Exchange) : Ending :=
  if x.gathering.isDone then ⟨.ok x.gathering, x.actors, some 0⟩
  else t.pass timeout true x (t.instants x.actors x.gathering.asked)

/-- One request with a deadline in milliseconds: the response, the actors after it, and when it
ended. -/
def requestOne (t : LocalTransport) (actors : Table Int Actor) (id : Int) (request : String)
    (c : Ciphertext) (deadline : Nat) : Outcome ShareResponse × Table Int Actor × Nat :=
  let start := t.contactTime id
  if deadline ≤ start then (.error .expired, actors, deadline)
  else
    let contacted :=
      if t.obstacle? actors id = none then contact actors id request c else actors
    match t.settleTime? actors id with
    -- An actor that cannot be reached keeps the ciphertext all the same.
    | none => (.error .expired, contacted, deadline)
    | some due =>
      if deadline ≤ due then (.error .expired, contacted, deadline)
      else
        let (reply, answered) := t.answer contacted id request
        (reply, answered, due)

end LocalTransport

end Quorum
