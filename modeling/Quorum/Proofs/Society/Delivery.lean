import Quorum.Proofs.Channel.Seal
import Quorum.Proofs.Society.Agreement
import Quorum.Proofs.Society.History
import Quorum.Proofs.Threshold.KeySet

/-!
# A message reaches its recipient

Whoever has the published key set of a society can encrypt a message to it. When the selected actors
answer in time, the coordinator gets the message out of the ciphertext, seals it for one recipient
and puts it into the recipient's outbox, where the recipient finds a payload that opens to the
message. What fails on the way fails before anything is put into an outbox.

## Main definitions

* `LocalTransport.Delivers` — a payload was put into the outbox of a recipient
* `Coordinator.Serves` — a coordinator over the actors of a dealt society

## Main results

* `Coordinator.exists_create` — a coordinator is made of every deal that succeeds
* `Coordinator.select_spec` — the selected actors are enough for a quorum
* `Coordinator.Serves.request_eq_ok` — a request decrypts what was encrypted
* `Coordinator.outbox_of_decryptFor_error` — nothing is delivered when something fails
* `Coordinator.decryptFor_delivers` — a message reaches its recipient
-/

namespace Quorum

/-! ### Encrypting to a published key set -/

section Encrypting

variable {parties threshold : ℤ} {draw : ℕ → ℕ} {material : Material} {shares : List KeyShare}

/-- A message is encrypted to the published key set, and the drawn secret opens the ciphertext. -/
theorem Dealer.exists_encrypt (dealt : deal parties threshold draw = .ok (material, shares))
    (small : parties < order) {message : Bytes} {draws : Threshold.Draws}
    (short : message.length + 16 < 2 ^ 32) (nonce_length : draws.nonce.length = 12) :
    ∃ (c : Ciphertext) (U : P256),
      Threshold.encrypt (.bytes material.keys.toBytes) message draws = .ok c ∧
        c.verify = .ok true ∧ decodePoint c.ephemeral = .ok U.point ∧
        Threshold.opened (Threshold.openPayload
          (((Scalar.ofDraw (draw 0) : ℤ) : ZMod order) • U).point c) = .ok message := by
  obtain ⟨secrets, generated, -, -⟩ := deal_eq_ok_iff.mp dealt
  obtain ⟨⟨rest, polynomial⟩, -⟩ := Threshold.exists_dealt generated small
  -- The threshold has few digits, because it is less than the number of parties.
  have digits : (Json.intText material.keys.threshold).length ≤ 4300 := by
    have below := material.threshold_lt
    have parties_eq := (quorum_of_deal dealt).2
    exact KeySet.length_intText_threshold (by omega)
  have publicKey : (SocietyKey.bytes material.keys.toBytes).publicKey =
      .ok (baseMultiple (Scalar.ofDraw (draw 0))).encoded :=
    (SocietyKey.publicKey_toBytes digits).trans (congrArg Except.ok polynomial.publicKey_eq)
  obtain ⟨c, U, key, encrypted, holds, -, read, keyed, key_length, nonce_eq, sealed_eq⟩ :=
    Threshold.encrypt_eq_ok (Scalar.cast_ofDraw_ne_zero (draw 0)) publicKey message draws
      (by omega) (by omega)
  have fits : Gcm.nonceFits draws.nonce = true := by simp [Gcm.nonceFits, nonce_length]
  refine ⟨c, U, encrypted, holds, read, ?_⟩
  rw [Threshold.opened_openPayload keyed, nonce_eq, sealed_eq, Gcm.decrypt?_encrypt key_length fits]

end Encrypting

/-! ### Handing over -/

/-- Exactly one payload was put into the outboxes: behind what the outbox of the recipient held. -/
structure LocalTransport.Delivers (t t' : LocalTransport) (recipient : String)
    (payload : Bytes) : Prop where
  own : t'.outbox.get? recipient = some ((t.outbox.get? recipient).getD [] ++ [payload])
  others : ∀ other, other ≠ recipient → t'.outbox.get? other = t.outbox.get? other

theorem LocalTransport.delivers_deliver (t : LocalTransport) (recipient : String)
    (payload : Bytes) : t.Delivers (t.deliver recipient payload) recipient payload where
  own := by rw [deliver, Table.get?_insert, if_pos rfl]
  others := by
    intro other different
    rw [deliver, Table.get?_insert, if_neg different]

/-- The key that a party has published last is found. -/
theorem Directory.peer_publishPeer (d : Directory) (owner : String) (value : Bytes) :
    (d.publishPeer owner value).peer owner = .ok value := by
  rw [peer, lookup, publishPeer, publish, Table.get?_insert, if_pos rfl]

namespace Coordinator

variable {k k' : Coordinator} {d : Directory} {request : String} {c : Ciphertext}
  {recipient : String} {key : Option Bytes} {timeout : Option Binary64} {nonce : Bytes}

theorem forward_eq_ok {data payload : Bytes} {m : SealedMessage}
    (known : key = some data ∨ key = none ∧ d.peer recipient = .ok data)
    (made : sealFor data payload k.keys k.config.derivation nonce = .ok m) :
    k.forward d payload recipient key nonce =
      (.ok m, { k with transport := k.transport.deliver recipient m.toBytes }) := by
  have sealed : Except.bind (.ok data) (fun b =>
      Outcome.ofValue (sealFor b payload k.keys k.config.derivation nonce)) = .ok m :=
    congrArg Outcome.ofValue made
  unfold forward
  obtain rfl | ⟨rfl, found⟩ := known
  · dsimp only
    rw [sealed]
  · dsimp only
    rw [found, sealed]

theorem decryptFor_eq_ok {payload : Bytes} {m : SealedMessage}
    (requested : (k.request request c none timeout).1 = .ok payload)
    (forwarded : (k.request request c none timeout).2.1.forward d payload recipient key nonce =
      (.ok m, k')) :
    k.decryptFor d request c recipient key timeout nonce =
      (.ok m, k', (k.request request c none timeout).2.2) := by
  rw [decryptFor]
  generalize k.request request c none timeout = ended at requested forwarded ⊢
  obtain ⟨_, _, time⟩ := ended
  dsimp only at requested forwarded ⊢
  rw [requested]
  dsimp only
  rw [forwarded]

/-- A recipient without a key gets nothing. -/
theorem exists_error_of_decryptFor {f : Fault} (unknown : d.peer recipient = .error f) :
    ∃ f', (k.decryptFor d request c recipient none timeout nonce).1 = .error f' := by
  rw [decryptFor]
  generalize k.request request c none timeout = ended
  obtain ⟨_ | payload, k', time⟩ := ended
  · exact ⟨_, rfl⟩
  · have refused : k'.forward d payload recipient none nonce = (.error f, k') := by
      unfold forward
      dsimp only
      rw [unknown]
      rfl
    dsimp only
    rw [refused]
    exact ⟨f, rfl⟩

/-- Nothing is delivered when something fails. -/
theorem outbox_of_decryptFor_error {f : Fault}
    (failed : (k.decryptFor d request c recipient key timeout nonce).1 = .error f) :
    (k.decryptFor d request c recipient key timeout nonce).2.1.transport.outbox =
      k.transport.outbox := by
  have same : (k.request request c none timeout).2.1.transport = k.transport := rfl
  rw [decryptFor] at failed ⊢
  generalize k.request request c none timeout = ended at failed same ⊢
  obtain ⟨_ | payload, k', time⟩ := ended
  · exact congrArg LocalTransport.outbox same
  · dsimp only at failed same ⊢
    rcases k'.forward_cases d payload recipient key nonce with ⟨f, refused⟩ | ⟨m, forwarded⟩
    · rw [refused]
      exact congrArg LocalTransport.outbox same
    · rw [forwarded] at failed
      cases failed

/-! ### A fresh society -/

variable {config : Config} {material : Material} {shares : List KeyShare}

/-- A coordinator of a dealt society with enough actors, and with channel keys on the configured
curve. -/
structure Serves (k : Coordinator) (config : Config) (material : Material)
    (shares : List KeyShare) : Prop extends k.Dealt shares where
  material_eq : k.material = material
  config_eq : k.config = config
  sound : k.keys.Sound
  curve : k.keys.curve = config.curve
  enough : material.quorum ≤ k.actors.size

/-- A coordinator is made of every deal that succeeds, and all parties are among its actors. -/
theorem exists_create {parties threshold : Option ℤ} {draw : ℕ → ℕ} (ds : Directories)
    (dealt : Dealer.deal (parties.getD config.parties) (threshold.getD config.threshold) draw =
      .ok (material, shares)) :
    ∃ k ds', create parties threshold config draw ds = .ok (k, ds') ∧
      k.Serves config material shares := by
  obtain ⟨keys, drawn, sound, curve⟩ :=
    KeyPair.exists_ofDraw config.curve (draw ((threshold.getD config.threshold).toNat + 1))
  let pairs := (shares.map fun s => Actor.new s .elliptic).map fun a => (a.id, a)
  have holders : pairs.map Prod.fst = shares.map KeyShare.actor := by
    rw [List.map_map, List.map_map]
    rfl
  have distinct : (pairs.map Prod.fst).Nodup := by
    rw [holders, Dealer.actors_of_deal dealt]
    exact List.nodup_range.map Nat.cast_injective
  have size : (Table.ofList pairs).size = material.parties := by
    have lengths := congrArg List.length (Dealer.actors_of_deal dealt)
    rw [List.length_map, List.length_map, List.length_range] at lengths
    have parties_eq := (Dealer.quorum_of_deal dealt).2
    rw [Table.size, Table.entries_ofList distinct, List.length_map, List.length_map]
    omega
  simp only [create, dealt, Outcome.bind_ok, new, drawn, Outcome.ofValue]
  refine ⟨_, _, rfl, dealt_of_actors rfl rfl, rfl, rfl, sound, curve, ?_⟩
  exact size ▸ material.threshold_lt

/-- A coordinator goes on serving its society. -/
theorem Serves.continues (serves : k.Serves config material shares) (later : Continues k k') :
    k'.Serves config material shares where
  scheme := later.scheme.trans serves.scheme
  actors := by
    intro id a' found
    obtain ⟨a, before, share, scheme⟩ := exists_of_roster_eq later.roster.symm found
    rw [Actor.id, ← share, ← scheme]
    exact serves.actors id a before
  material_eq := later.material.trans serves.material_eq
  config_eq := later.config.trans serves.config_eq
  sound := later.keys ▸ serves.sound
  curve := later.keys ▸ serves.curve
  enough := by
    apply serves.enough.trans
    apply Table.size_le_size
    intro id member
    obtain ⟨a, before⟩ := Table.mem_keys_iff.mp member
    obtain ⟨a', found, -⟩ := exists_of_roster_eq later.roster before
    exact Table.mem_keys_iff.mpr ⟨a', found⟩

/-- The selected actors are distinct, exist, and are enough for a quorum. -/
theorem select_spec (enough : k.material.quorum ≤ k.actors.size) :
    (k.select none).Nodup ∧ k.material.quorum ≤ (k.select none).length ∧
      ∀ id ∈ k.select none, ∃ a, k.actors.get? id = some a := by
  have positive : 0 < k.material.quorum := Nat.succ_pos _
  have sorted := List.mergeSort_perm k.actors.keys fun i j => i ≤ j
  have selected : k.select none =
      (k.actors.keys.mergeSort fun i j => i ≤ j).take (k.material.quorum + k.config.margin) := by
    rw [select, firstActors, if_neg (positive.trans_le enough).ne', Option.getD_none,
      ← Nat.cast_add, Int.toNat_natCast]
  rw [selected]
  refine ⟨?_, ?_, ?_⟩
  · exact (sorted.nodup_iff.mpr k.actors.nodup_keys).sublist (List.take_sublist ..)
  · rw [List.length_take, sorted.length_eq, Table.length_keys]
    omega
  · intro id member
    exact Table.mem_keys_iff.mp (sorted.mem_iff.mp (List.mem_of_mem_take member))

/-! ### Decrypting what was encrypted -/

/-- Every actor answers a ciphertext that passes the check. -/
theorem Staffed.exists_answer (staffed : k.Staffed c) (holds : c.verify = .ok true) {id : ℤ}
    {a : Actor} (found : k.actors.get? id = some a) : ∃ share, a.compute c = .ok share := by
  cases computed : a.compute c with
  | ok share => exact ⟨share, rfl⟩
  | error f =>
    rcases staffed.refuses id a f found computed with ⟨-, fails⟩ | ⟨-, fails⟩
    · rw [holds] at fails
      cases fails
    · rw [holds] at fails
      cases fails

/-- A request that ends before its deadline has counted a quorum, when enough actors were asked and
all of them answer. -/
theorem exists_quorum_of_request (staffed : k.Staffed c) (holds : c.verify = .ok true)
    (enough : k.material.quorum ≤ k.actors.size)
    (answers : ∀ id ∈ k.select none, k.transport.Answers (timeout.getD k.config.timeout) id)
    (request : String) :
    ∃ m : Meeting, m.Counting k c (k.select none) ∧ k.material.quorum ≤ m.shares.size ∧
      (k.request request c none timeout).1 = m.decrypt.1 := by
  obtain ⟨distinct, selected, known⟩ := select_spec enough
  obtain ⟨m, collects, ended⟩ := exists_collects_of_request staffed request none timeout
    (fun id asked => (answers id asked).toDirect) (time_ne_none request c none timeout answers)
  refine ⟨m, collects.toCounting, ?_, ended⟩
  rcases collects.enough with quorum | all
  · exact quorum
  · -- All selected actors have answered, and they are enough.
    have subset : k.select none ⊆ m.shares.keys := by
      intro id asked
      obtain ⟨a, found⟩ := known id asked
      obtain ⟨share, computed⟩ := staffed.exists_answer holds found
      exact all id asked a share found computed
    rw [← Table.length_keys]
    exact selected.trans (List.subperm_of_subset distinct subset).length_le

/-- A request decrypts a ciphertext that the drawn secret opens. -/
theorem Serves.request_eq_ok {parties threshold : ℤ} {draw : ℕ → ℕ}
    (serves : k.Serves config material shares)
    (dealt : Dealer.deal parties threshold draw = .ok (material, shares)) (small : parties < order)
    (holds : c.verify = .ok true) {U : P256} (read : decodePoint c.ephemeral = .ok U.point)
    {message : Bytes} (opens : Threshold.opened (Threshold.openPayload
      (((Scalar.ofDraw (draw 0) : ℤ) : ZMod order) • U).point c) = .ok message)
    (answers : ∀ id ∈ k.select none, k.transport.Answers (timeout.getD k.config.timeout) id)
    (request : String) : (k.request request c none timeout).1 = .ok message := by
  obtain ⟨staff, rfl, -, -, -, enough⟩ := serves
  have staffed := staff.staffed dealt small c
  obtain ⟨m, counting, quorum, ended⟩ :=
    exists_quorum_of_request staffed holds enough answers request
  rw [ended, counting.decrypt_eq, if_neg (not_lt.mpr quorum), staff.combine_eq dealt small read
    (fun i share kept => (counting.counted i share kept).2) quorum, opens]

/-- A message for a recipient reaches the recipient. A coordinator is made of every deal that
succeeds, with fewer parties than the order of the curve so that their points are distinct. Whatever
it has been asked to do since and over whatever transport, every message that may be sealed can be
encrypted to the published key set, and when the selected actors answer before the deadline,
decrypting the ciphertext puts one payload into the outbox of the recipient and nothing into any
other. The payload is read back as the message that was returned, and the recipient opens it to what
was encrypted. The recipient's key is given or found in the directory, in any form that stands for
its point. When a call fails, for whatever reason and for whatever coordinator, all outboxes are as
before. -/
theorem decryptFor_delivers :
    (∀ (config : Config) (parties threshold : Option ℤ) (draw : ℕ → ℕ) (ds : Directories)
        (material : Material) (shares : List KeyShare),
      Dealer.deal (parties.getD config.parties) (threshold.getD config.threshold) draw =
        .ok (material, shares) →
      parties.getD config.parties < order →
      ∃ created ds', create parties threshold config draw ds = .ok (created, ds') ∧
        ∀ (run : List Call) (message : Bytes) (draws : Threshold.Draws),
          let k := created.calls run
          let encrypted := Threshold.encrypt (.bytes k.material.keys.toBytes) message draws
          draws.nonce.length = 12 →
          (message.length < 2 ^ 31 → ∃ c, encrypted = .ok c) ∧
          ∀ (c : Ciphertext) (secret : ℤ) (pair : KeyPair) (data : Bytes) (d : Directory)
              (recipient : String) (key : Option Bytes) (timeout : Option Binary64)
              (request : String) (nonce : Bytes),
            let ended := k.decryptFor d request c recipient key timeout nonce
            encrypted = .ok c →
            KeyPair.ofSecret config.curve secret = .ok pair →
            pair.curve.curve.decode data = .ok pair.point →
            (key = some data ∨ key = none ∧ d.peer recipient = .ok data) →
            (∀ id ∈ k.select none, k.transport.Answers (timeout.getD config.timeout) id) →
            nonce.length = 12 →
            ∃ m, ended.1 = .ok m ∧
              k.transport.Delivers ended.2.1.transport recipient m.toBytes ∧
              SealedMessage.ofBytes m.toBytes = .ok m ∧
              openSealed m pair config.derivation = .ok message) ∧
    ∀ (k : Coordinator) (d : Directory) (request : String) (c : Ciphertext) (recipient : String)
        (key : Option Bytes) (timeout : Option Binary64) (nonce : Bytes) (f : Fault),
      let ended := k.decryptFor d request c recipient key timeout nonce
      ended.1 = .error f → ended.2.1.transport.outbox = k.transport.outbox := by
  constructor
  swap
  · intro k d request c recipient key timeout nonce f ended failed
    exact outbox_of_decryptFor_error failed
  intro config parties threshold draw ds material shares dealt small
  obtain ⟨created, ds', made, fresh⟩ := exists_create ds dealt
  refine ⟨created, ds', made, ?_⟩
  intro run message draws k encrypted draws_nonce
  have serves : k.Serves config material shares := fresh.continues (created.continues_calls run)
  have encrypted_eq :
      encrypted = Threshold.encrypt (.bytes material.keys.toBytes) message draws := by
    rw [← serves.material_eq]
  constructor
  · intro short
    have fits : message.length + 16 < 2 ^ 32 := by omega
    obtain ⟨c, -, encrypts, -⟩ := Dealer.exists_encrypt dealt small fits draws_nonce
    exact ⟨c, encrypted_eq.trans encrypts⟩
  · intro c secret pair data d recipient key timeout request nonce ended encrypts pair_made read
      known answers nonce_length
    -- The request decrypts to the message.
    obtain ⟨c', U, encrypts', holds, ephemeral, opens⟩ :=
      Dealer.exists_encrypt dealt small (Threshold.short_of_encrypt encrypts) draws_nonce
    obtain rfl : c' = c := Except.ok.inj ((encrypted_eq.trans encrypts').symm.trans encrypts)
    have answers' : ∀ id ∈ k.select none,
        k.transport.Answers (timeout.getD k.config.timeout) id := serves.config_eq ▸ answers
    have requested := serves.request_eq_ok dealt small holds ephemeral opens answers' request
    -- The message is sealed for the recipient.
    obtain ⟨pair_sound, pair_curve, -⟩ := KeyPair.ofSecret_eq_ok_iff.mp pair_made
    obtain ⟨m, sealed, opened⟩ := openSealed_sealFor serves.sound pair_sound
      (serves.curve.trans pair_curve.symm) read config.derivation nonce_length message
    have sealed' : sealFor data message k.keys k.config.derivation nonce = .ok m :=
      serves.config_eq ▸ sealed
    have ended_eq : ended = _ := decryptFor_eq_ok requested (forward_eq_ok known sealed')
    refine ⟨m, ?_, ?_, m.ofBytes_toBytes, opened⟩
    · rw [ended_eq]
    · rw [ended_eq]
      exact k.transport.delivers_deliver recipient m.toBytes

/-- Alice, whose key is in the directory, gets the greeting that two actors decrypt. Bob, who is not
in it, gets nothing. -/
theorem decryptFor_delivers_greeting :
    ∃ (k : Coordinator) (pair : KeyPair) (c : Ciphertext) (m : SealedMessage),
      let nonce : Bytes := List.replicate 12 0
      let d := Directory.empty.publishPeer "alice" pair.publicBytes
      let alice := k.decryptFor d "r" c "alice" none none nonce
      let bob := k.decryptFor .empty "r" c "bob" none none nonce
      Threshold.encrypt (.bytes k.material.keys.toBytes) (Bytes.ascii "hello") ⟨0, nonce, 0⟩ =
          .ok c ∧
        alice.1 = .ok m ∧ alice.2.1.transport.outbox.get? "alice" = some [m.toBytes] ∧
        openSealed m pair .raw = .ok (Bytes.ascii "hello") ∧
        (∃ f, bob.1 = .error f) ∧ bob.2.1.transport.outbox = k.transport.outbox := by
  obtain ⟨delivers, fails⟩ := decryptFor_delivers
  obtain ⟨material, shares, dealt⟩ := Gathering.exists_deal_of_zero_draws
  obtain ⟨created, ds', -, delivers⟩ :=
    delivers .default (some 2) (some 1) (fun _ => 0) .none material shares dealt (by decide)
  obtain ⟨encrypts, delivers⟩ := delivers [.use .ideal] (Bytes.ascii "hello")
    ⟨0, List.replicate 12 0, 0⟩ (by decide)
  obtain ⟨c, encrypted⟩ := encrypts (by decide)
  obtain ⟨pair, drawn, sound, curve⟩ := KeyPair.exists_ofDraw .k256 0
  let k := created.calls [.use .ideal]
  let nonce : Bytes := List.replicate 12 0
  have soon : Binary64.lt (LocalTransport.seconds 0) Config.tenSeconds = true := by decide +kernel
  have plain : k.transport.Plain := rfl
  have published := Directory.peer_publishPeer .empty "alice" pair.publicBytes
  obtain ⟨m, returned, delivered, -, opened⟩ :=
    delivers c _ pair pair.publicBytes _ "alice" none none "r" nonce encrypted drawn
      sound.decode_publicBytes (.inr ⟨rfl, published⟩)
      (fun id _ => ⟨plain.direct id, List.not_mem_nil, soon⟩) (by decide)
  have refused : ∃ f, (k.decryptFor .empty "r" c "bob" none none nonce).1 = .error f :=
    exists_error_of_decryptFor rfl
  obtain ⟨f, failed⟩ := refused
  exact ⟨k, pair, c, m, encrypted, returned, delivered.own, opened, ⟨f, failed⟩,
    fails k .empty "r" c "bob" none none nonce f failed⟩

end Coordinator

end Quorum
