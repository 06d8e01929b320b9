import Quorum.Society.Actor

/-!
# Decryption meetings

A meeting collects the shares for one request. The first ciphertext it is offered binds it, and
shares for any other ciphertext are dropped. Every share is verified before it is kept, so a quorum
of kept shares can be combined without further checks. A meeting that has been combined is over.

## Main definitions

* `Meeting` — the bound ciphertext and the kept shares
* `Meeting.accept` — takes an actor's pending ciphertext and its share
* `Meeting.submit` — takes a share that was computed elsewhere
* `Meeting.decrypt` — combines the kept shares and ends the meeting
-/

namespace Quorum

/-- Whether a meeting still collects shares. -/
inductive Meeting.State where
  /-- Shares are taken. -/
  | collecting
  /-- The meeting has ended, with a payload or without. -/
  | resolved
deriving DecidableEq, Repr, Inhabited

/-- What happened to an offered share. -/
inductive Meeting.Reception where
  /-- It is kept and counts. -/
  | accepted
  /-- It replaces an earlier share of the same actor. -/
  | replaced
  /-- It was for another ciphertext and was dropped. -/
  | mismatched
deriving DecidableEq, Repr, Inhabited

/-- A meeting for one request. -/
structure Meeting where
  /-- The material of the society. -/
  material : Material
  /-- The request that the meeting serves. -/
  request : String
  /-- The scheme that verifies and combines. -/
  scheme : Scheme
  /-- Whether shares are still taken. -/
  state : Meeting.State
  /-- The ciphertext that the meeting is bound to. -/
  bound : Option Ciphertext
  /-- The kept shares by actor. -/
  shares : Table Int DecryptionShare

namespace Meeting

/-- The name of a state. -/
def State.name : State → String
  | collecting => "collecting"
  | resolved => "resolved"

/-- The name of a reception. -/
def Reception.name : Reception → String
  | accepted => "accepted"
  | replaced => "replaced"
  | mismatched => "mismatched"

/-- A meeting without shares. -/
def new (material : Material) (request : String) (scheme : Scheme) : Meeting :=
  ⟨material, request, scheme, .collecting, none, .empty⟩

/-- Whether enough shares are kept. -/
def hasQuorum (m : Meeting) : Bool := m.material.quorum ≤ m.shares.size

/-- The actors whose shares are kept, in increasing order. -/
def actors (m : Meeting) : List Int := m.shares.keys.mergeSort fun i j => i ≤ j

/-- The public share of an actor of the society. -/
def publicShare (m : Meeting) (id : Int) : Outcome Bytes :=
  if 0 ≤ id ∧ id < m.material.parties then m.material.keys.publicShare id
  else .error (.shareRejected id "unknown actor")

/-- Binds the meeting to a ciphertext; `none` when it is bound to another one. -/
def bind? (m : Meeting) (c : Ciphertext) : Option Meeting :=
  match m.bound with
  | none => some { m with bound := some c }
  | some b => if c = b then some m else none

/-- Verifies a share for the bound ciphertext and keeps it. -/
def store (m : Meeting) (id : Int) (publicShare : Bytes) (share : DecryptionShare)
    (c : Ciphertext) : Outcome Reception × Meeting :=
  if share.actor ≠ id then (.error (.shareRejected id "verification failed"), m)
  else
    match m.scheme.verifyShare share publicShare c with
    | .error f => (.error f, m)
    | .ok false => (.error (.shareRejected id "verification failed"), m)
    | .ok true =>
      (.ok (if m.shares.contains id then .replaced else .accepted),
        { m with shares := m.shares.insert id share })

/-- Takes the share that an actor computes for a ciphertext it was sent. -/
def consider (m : Meeting) (a : Actor) (c : Ciphertext) : Outcome Reception × Meeting :=
  match m.publicShare a.id with
  | .error f => (.error f, m)
  | .ok publicShare =>
    if a.share.publicShare ≠ publicShare then
      (.error (.shareRejected a.id "public share does not match the society key"), m)
    else
      match m.bind? c with
      | none => (.ok .mismatched, m)
      | some m' =>
        -- The meeting stays bound even if the actor has no share to give.
        match a.compute c with
        | .error f => (.error f, m')
        | .ok share => m'.store a.id publicShare share c

/-- Takes an actor's pending ciphertext and the share that the actor computes for it. -/
def accept (m : Meeting) (a : Actor) : Outcome Reception × Meeting × Actor :=
  match m.state with
  | .resolved => (.error (.resolved m.request), m, a)
  | .collecting =>
    -- The actor's slot is emptied whatever becomes of the ciphertext.
    match a.take m.request with
    | (.error f, a') => (.error f, m, a')
    | (.ok c, a') =>
      let (r, m') := m.consider a' c
      (r, m', a')

/-- Takes a share that was computed elsewhere. -/
def submit (m : Meeting) (id : Int) (c : Ciphertext) (share : DecryptionShare) :
    Outcome Reception × Meeting :=
  match m.state with
  | .resolved => (.error (.resolved m.request), m)
  | .collecting =>
    if share.actor ≠ id then (.error (.shareRejected id "share belongs to another actor"), m)
    else
      match m.publicShare id with
      | .error f => (.error f, m)
      | .ok publicShare =>
        match m.bind? c with
        | none => (.ok .mismatched, m)
        | some m' => m'.store id publicShare share c

/-- The end of a meeting with an outcome. A scheme that finds a counted quorum too small has broken
a promise; any other fault than a failed combination leaves the meeting open. -/
def conclude (m : Meeting) : Outcome Bytes → Outcome Bytes × Meeting
  | .ok payload => (.ok payload, { m with state := .resolved })
  | .error f =>
    if f = .notCombined ∨ f = .quorumRefused then (.error f, { m with state := .resolved })
    else if f.isInsufficient then (.error .quorumRefused, { m with state := .resolved })
    else (.error f, m)

/-- Combines the kept shares into the payload. -/
def decrypt (m : Meeting) : Outcome Bytes × Meeting :=
  match m.state with
  | .resolved => (.error (.resolved m.request), m)
  | .collecting =>
    match m.bound with
    | none => (.error (.insufficient m.shares.size m.material.quorum), m)
    | some c =>
      if m.shares.size < m.material.quorum then
        (.error (.insufficient m.shares.size m.material.quorum), m)
      else m.conclude (m.scheme.combine m.shares m.material.keys c)

end Meeting

end Quorum
