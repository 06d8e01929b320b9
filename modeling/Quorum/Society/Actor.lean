import Quorum.Society.Material

/-!
# Actors

An actor holds a key share and answers decryption requests. Ciphertexts wait in its inbox, one for
each request; a later ciphertext for the same request replaces the earlier one.

## Main definitions

* `Actor` — a key share with an inbox
* `Actor.receive`, `Actor.pending?`, `Actor.discard` — the inbox
* `Actor.take` — consumes the pending ciphertext of a request
* `Actor.compute` — the actor's share for a ciphertext
* `Actor.respond` — consumes a ciphertext and answers it
-/

namespace Quorum

/-- The request that a caller means who names none. -/
def defaultRequest : String := "default"

/-- A holder of a key share, with its inbox. -/
structure Actor where
  /-- The key share. -/
  share : KeyShare
  /-- The scheme that the share belongs to. -/
  scheme : Scheme
  /-- The pending ciphertext of each request. -/
  inbox : Table String Ciphertext
deriving Inhabited

namespace Actor

/-- The actor's index. -/
def id (a : Actor) : Int := a.share.actor

/-- An actor with an empty inbox. -/
def new (share : KeyShare) (scheme : Scheme) : Actor := ⟨share, scheme, .empty⟩

/-- Keeps a ciphertext for a request. -/
def receive (a : Actor) (c : Ciphertext) (request : String) : Actor :=
  { a with inbox := a.inbox.insert request c }

/-- The ciphertext that is pending for a request. -/
def pending? (a : Actor) (request : String) : Option Ciphertext := a.inbox.get? request

/-- Drops what is pending for a request. -/
def discard (a : Actor) (request : String) : Actor :=
  { a with inbox := a.inbox.erase request }

/-- Consumes the pending ciphertext of a request. -/
def take (a : Actor) (request : String) : Outcome Ciphertext × Actor :=
  match a.pending? request with
  | some c => (.ok c, a.discard request)
  | none => (.error (.nothingPending a.id request), a)

/-- The outcome of computing a share: a refused value becomes a fault of the actor. -/
def blamed (id : Int) : Outcome DecryptionShare → Outcome DecryptionShare
  | .ok s => .ok s
  | .error f => .error (if f.isBadValue then .noShare id else f)

/-- The actor's share for a ciphertext. -/
def compute (a : Actor) (c : Ciphertext) : Outcome DecryptionShare :=
  blamed a.id (a.scheme.decryptShare a.share.secret c)

/-- Consumes the pending ciphertext of a request and answers it. -/
def respond (a : Actor) (request : String) : Outcome (Ciphertext × DecryptionShare) × Actor :=
  match a.take request with
  | (.ok c, a') => ((a'.compute c).map fun s => (c, s), a')
  | (.error f, a') => (.error f, a')

/-- What an actor is shown as. -/
def shown (a : Actor) : String :=
  "Actor(id=" ++ toString a.id ++ ", pending=" ++ a.inbox.size.repr ++ ")"

end Actor

end Quorum
