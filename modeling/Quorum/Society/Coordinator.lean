import Quorum.Config
import Quorum.Society.Dealer
import Quorum.Society.Directory
import Quorum.Society.Transport

/-!
# The coordinator

The coordinator routes a ciphertext to some of the actors, counts their shares in a meeting of its
own for each request, and hands the payload out, or seals it for one recipient and forwards it.

## Main definitions

* `Coordinator` — material, settings, actors, transport, channel keys and directory
* `Coordinator.new`, `Coordinator.create` — a coordinator over given actors, or over a fresh society
* `Coordinator.select` — the actors that are asked
* `Coordinator.decrypt` — decrypts with the actors in the same process
* `Coordinator.request` — decrypts over the transport
* `Coordinator.forward`, `Coordinator.decryptFor` — seals a payload for a recipient
-/

namespace Quorum

/-- A coordinator of a society. -/
structure Coordinator where
  /-- The material of the society. -/
  material : Material
  /-- The settings. -/
  config : Config
  /-- The actors in the same process, by index. -/
  actors : Table Int Actor
  /-- The transport to the actors and to recipients. -/
  transport : LocalTransport
  /-- The coordinator's own channel keys. -/
  keys : KeyPair
  /-- The number of the directory that the coordinator works on. -/
  directory : Nat
  /-- The scheme that meetings use. -/
  scheme : Scheme

namespace Coordinator

/-- Publishes the channel keys of configured peers. -/
def publishPeers (d : Directory) (peers : List (String × Bytes)) : Directory :=
  peers.foldl (fun d e => d.publishPeer e.1 e.2) d

/-- A coordinator over given actors, with given channel keys or drawn ones, on a given directory or
a new one. Configured peers are published. -/
def new (material : Material) (actors : List Actor) (config : Config) (keys : Option KeyPair)
    (draw : Nat) (directory : Option Nat) (ds : Directories) :
    Outcome (Coordinator × Directories) := do
  let own ← match keys with
    | some k => .ok k
    | none => Outcome.ofValue (KeyPair.ofDraw config.curve draw)
  -- Configured peers are published on whichever directory is used.
  let (number, ds) := ds.adopt directory
  let ds := ds.set number (publishPeers (ds.get number) config.peerKeys)
  .ok (⟨material, config, Table.ofList (actors.map fun a => (a.id, a)), .ideal, own, number,
    .elliptic⟩, ds)

/-- The owner under which a coordinator publishes its channel key. -/
def owner : String := "coordinator"

/-- Deals a society key and makes a coordinator over its actors. The channel keys are selected by
the draw after those of the dealer. -/
def create (parties threshold : Option Int) (config : Config) (draw : Nat → Nat)
    (ds : Directories) : Outcome (Coordinator × Directories) := do
  let t := threshold.getD config.threshold
  let (material, shares) ← Dealer.deal (parties.getD config.parties) t draw
  let actors := shares.map fun s => Actor.new s .elliptic
  let (k, ds) ← new material actors config none (draw (t.toNat + 1)) none ds
  let d := (ds.get k.directory).publishSociety material.keys.toBytes
  .ok (k, ds.set k.directory (d.publishPeer owner k.keys.publicBytes))

/-- The first actors in increasing order, as many as given: of those in the same process, or of all
of the society when there are none. -/
def firstActors (k : Coordinator) (count : Nat) : List Int :=
  if k.actors.size = 0 then
    (List.range (min count k.material.parties)).map fun (i : Nat) => (i : Int)
  else (k.actors.keys.mergeSort fun i j => i ≤ j).take count

/-- The actors that are asked: a given number, or the quorum and the configured margin. -/
def select (k : Coordinator) (count : Option Int) : List Int :=
  k.firstActors (count.getD (k.material.quorum + k.config.margin)).toNat

/-- A meeting for a request. -/
def openMeeting (k : Coordinator) (request : String) : Meeting :=
  .new k.material request k.scheme

/-- Sends a ciphertext to actors. -/
def route (c : Ciphertext) (request : String) (actors : Table Int Actor) (ids : List Int) :
    Table Int Actor :=
  ids.foldl (fun as id => LocalTransport.contact as id request c) actors

/-- Clears what is pending for a request. -/
def clear (request : String) (actors : Table Int Actor) (ids : List Int) : Table Int Actor :=
  ids.foldl (fun as id =>
    match as.get? id with
    | some a => as.insert id (a.discard request)
    | none => as) actors

/-- Whether a coordinator passes a fault over and goes on with the next actor. -/
def isSkipped (f : Fault) : Bool := f.isShareFault || f.isRejection

/-- Accepts actors into a meeting until it has a quorum. -/
def acceptAll (m : Meeting) (actors : Table Int Actor) :
    List Int → Option Fault × Meeting × Table Int Actor
  | [] => (none, m, actors)
  | id :: rest =>
    match actors.get? id with
    | none => acceptAll m actors rest
    | some a =>
      let (r, m, a) := m.accept a
      let actors := actors.insert id a
      match r with
      | .error f =>
        if isSkipped f then
          if m.hasQuorum then (none, m, actors) else acceptAll m actors rest
        else (some f, m, actors)
      | .ok _ => if m.hasQuorum then (none, m, actors) else acceptAll m actors rest

/-- Decrypts with the actors in the same process: those chosen, or the selected ones. -/
def decrypt (k : Coordinator) (request : String) (c : Ciphertext) (ids : Option (List Int)) :
    Outcome Bytes × Coordinator :=
  let ids := ids.getD (k.select none)
  match acceptAll (k.openMeeting request) (route c request k.actors ids) ids with
  -- A fault that is not expected leaves the inboxes of the others as they are.
  | (some f, _, actors) => (.error f, { k with actors })
  | (none, m, actors) => (m.decrypt.1, { k with actors := clear request actors ids })

/-- Decrypts over the transport, within the given number of seconds or the configured one. The last
part of the answer is the time at which the request ended, unless the deadline ended it. -/
def request (k : Coordinator) (request : String) (c : Ciphertext) (ids : Option (List Int))
    (timeout : Option Binary64) : Outcome Bytes × Coordinator × Option Nat :=
  let ids := ids.getD (k.select none)
  let timeout := timeout.getD k.config.timeout
  let g := Gathering.start c ids (k.openMeeting request)
  let e := k.transport.exchange timeout ⟨g, k.actors⟩
  let k := { k with actors := clear request e.actors ids }
  (e.result.bind fun g => g.conclude timeout, k, e.time)

/-- Seals a payload for a recipient, under a given key or the one in the directory, and hands it to
the transport. -/
def forward (k : Coordinator) (d : Directory) (payload : Bytes) (recipient : String)
    (key : Option Bytes) (nonce : Bytes) : Outcome SealedMessage × Coordinator :=
  let recipientKey : Outcome Bytes :=
    match key with
    | some b => .ok b
    | none => d.peer recipient
  match recipientKey.bind fun b =>
    Outcome.ofValue (sealFor b payload k.keys k.config.derivation nonce) with
  | .error f => (.error f, k)
  | .ok m => (.ok m, { k with transport := k.transport.deliver recipient m.toBytes })

/-- Decrypts over the transport and forwards the payload to one recipient. -/
def decryptFor (k : Coordinator) (d : Directory) (request : String) (c : Ciphertext)
    (recipient : String) (key : Option Bytes) (timeout : Option Binary64) (nonce : Bytes) :
    Outcome SealedMessage × Coordinator × Option Nat :=
  match k.request request c none timeout with
  | (.error f, k, time) => (.error f, k, time)
  | (.ok payload, k, time) =>
    let (r, k) := k.forward d payload recipient key nonce
    (r, k, time)

end Coordinator

end Quorum
