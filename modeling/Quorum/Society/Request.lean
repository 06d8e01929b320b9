import Quorum.Society.Meeting

/-!
# Gathering answers

A coordinator asks several actors at once and counts their answers as they come in. Answers arrive
in batches; gathering goes on until the quorum is reached, every request is settled, or no further
batch arrives before the deadline.

## Main definitions

* `ShareResponse` — an actor's answer to a request
* `Gathering` — a meeting with the requests that are still out
* `Gathering.collect` — counts one answer, if it belongs to the request
* `Gathering.absorb` — takes a batch of settled requests
* `Gathering.run` — takes batches until there is nothing to wait for
* `Gathering.conclude` — the outcome of the request
-/

namespace Quorum

/-- An actor's answer to a request. -/
structure ShareResponse where
  /-- The actor that answers. -/
  actor : Int
  /-- The request that is answered. -/
  request : String
  /-- The ciphertext that the share was computed for. -/
  ciphertext : Ciphertext
  share : DecryptionShare
deriving DecidableEq

namespace ShareResponse

/-- The written form. -/
def toJson (r : ShareResponse) : Json :=
  .obj [("actor_id", .int r.actor), ("request_id", .str r.request),
    ("ciphertext", r.ciphertext.toJson), ("share", r.share.toJson)]

/-- Reads the written form. -/
def ofJson : Json → Checked ShareResponse :=
  Shape.record fun v => do
    let (actor, request, ciphertext, share) ← (Shape.required "actor_id" Shape.int v).and <|
      (Shape.required "request_id" Shape.text v).and <|
      (Shape.required "ciphertext" Ciphertext.ofJson v).and <|
      Shape.required "share" DecryptionShare.ofJson v
    .ok ⟨actor, request, ciphertext, share⟩

/-- Reads the written form from bytes. -/
def ofBytes (data : Bytes) : Checked ShareResponse := Shape.document ofJson data

end ShareResponse

/-- A settled request: the position of the request among those that went out, and its answer or
failure. -/
structure Settled where
  /-- The position of the request. -/
  position : Nat
  /-- The answer, or what went wrong. -/
  reply : Outcome ShareResponse

/-- A meeting with the requests that are still out. -/
structure Gathering where
  /-- The ciphertext that was routed. -/
  ciphertext : Ciphertext
  /-- The actors that were asked, in order. -/
  asked : List Int
  /-- The positions of the requests that are still out. -/
  out : List Nat
  /-- The meeting that counts. -/
  meeting : Meeting

namespace Gathering

/-- The start of a request: everything is still out. -/
def start (c : Ciphertext) (asked : List Int) (m : Meeting) : Gathering :=
  ⟨c, asked, List.range asked.length, m⟩

/-- Whether a response is the answer of the actor `id` to this request. -/
def answers (g : Gathering) (id : Int) (r : ShareResponse) : Bool :=
  r.actor == id && r.request == g.meeting.request && r.ciphertext == g.ciphertext

/-- Counts a settled request. Failures, misrouted answers, answers to another ciphertext and
rejected shares are passed over. -/
def collect (g : Gathering) (s : Settled) : Outcome Gathering :=
  match s.reply, g.asked[s.position]? with
  | .ok r, some id =>
    -- Only the ciphertext that was routed may bind the meeting.
    if g.answers id r then
      match g.meeting.submit id g.ciphertext r.share with
      | (.ok _, m) => .ok { g with meeting := m }
      -- A rejected share is one of many; any other fault ends the request.
      | (.error f, m) => if f.isRejection then .ok { g with meeting := m } else .error f
    else .ok g
  | _, _ => .ok g

/-- Counts settled requests one after another. -/
def collectAll (g : Gathering) : List Settled → Outcome Gathering
  | [] => .ok g
  | s :: rest => do
    let g ← g.collect s
    g.collectAll rest

/-- Takes a batch of settled requests. -/
def absorb (g : Gathering) (batch : List Settled) : Outcome Gathering :=
  collectAll { g with out := g.out.filter fun i => !batch.any fun s => s.position == i } batch

/-- Whether there is nothing to wait for. -/
def isDone (g : Gathering) : Bool := g.out.isEmpty || g.meeting.hasQuorum

/-- Takes batches until there is nothing to wait for. -/
def run (g : Gathering) : List (List Settled) → Outcome Gathering
  | [] => .ok g
  | batch :: rest =>
    if g.isDone then .ok g
    else do
      let g ← g.absorb batch
      g.run rest

/-- The outcome of the request: without a quorum it depends on whether an answer was still out. -/
def conclude (g : Gathering) (timeout : Binary64) : Outcome Bytes :=
  if g.meeting.hasQuorum then g.meeting.decrypt.1
  else if g.out.isEmpty then
    .error (.insufficient g.meeting.shares.size g.meeting.material.quorum)
  else .error (.timeout g.meeting.shares.size g.meeting.material.quorum timeout)

end Gathering

end Quorum
