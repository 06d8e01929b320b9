import Quorum.Proofs.Channel.KeyPair
import Quorum.Proofs.Society.Directory
import Quorum.Proofs.Society.Request
import Quorum.Society.Coordinator

/-!
# The directory that a coordinator works on

A directory that is given to a coordinator can be written to by others as well. If it holds records,
the coordinator works on it: configured peers are published in it, and whatever is published in it
later is found when a payload is forwarded. A directory without records counts as none: the
coordinator then makes a directory of its own, the given one stays as it is, and what is published
there later is never found.

## Main definitions

* `Directories.post`, `Directories.postAll` — publications in several directories
* `Directories.received` — the publications of one directory
* `Config.publications` — the channel keys of configured peers

## Main results

* `Directories.get_postAll` — every directory receives its own publications
* `Directories.adopt_spec` — which directory is worked on
* `Coordinator.forward_fst` — what a payload is sealed for without a given key
* `Coordinator.new_on_directory` — what a coordinator on a given directory finds
* `Coordinator.new_passes_directory_over` — a key that was published in the given directory is not
  found
-/

namespace Quorum

namespace Directories

variable {ds : Directories} {number other : ℕ} {ps : List (ℕ × Publication)}

/-- The directories after a publication in the directory with the given number. -/
def post (ds : Directories) (p : ℕ × Publication) : Directories :=
  ds.set p.1 ((ds.get p.1).publish p.2.kind p.2.owner p.2.value)

/-- The directories after publications, one after another. -/
def postAll (ds : Directories) (ps : List (ℕ × Publication)) : Directories := ps.foldl post ds

/-- The publications of the directory with a number. -/
def received (ps : List (ℕ × Publication)) (number : ℕ) : List Publication :=
  (ps.filter fun p => p.1 = number).map Prod.snd

@[simp] theorem length_set (ds : Directories) (number : ℕ) (d : Directory) :
    (ds.set number d).slots.length = ds.slots.length := List.length_set

theorem get_set_self (there : number < ds.slots.length) (d : Directory) :
    (ds.set number d).get number = d := by
  simp [get, set, there]

theorem get_set_of_ne (different : other ≠ number) (d : Directory) :
    (ds.set number d).get other = ds.get other := by
  simp [get, set, List.getElem?_set_ne (Ne.symm different)]

/-- Making a directory changes none, and the new one has no records. -/
theorem get_make (ds : Directories) (number : ℕ) : ds.make.2.get number = ds.get number := by
  simp only [get, make, List.getD_eq_getElem?_getD, List.getElem?_append]
  split
  · rfl
  · next absent =>
    rw [List.getElem?_eq_none (not_lt.mp absent)]
    cases number - ds.slots.length <;> rfl

/-- Every directory receives its own publications and no others. -/
theorem get_postAll (there : number < ds.slots.length) (ps : List (ℕ × Publication)) :
    (ds.postAll ps).get number = (ds.get number).publishAll (received ps number) := by
  induction ps generalizing ds with
  | nil => rfl
  | cons p ps ih =>
    have length : (ds.post p).slots.length = ds.slots.length := length_set ds p.1 _
    have later : (ds.postAll (p :: ps)).get number =
        ((ds.post p).get number).publishAll (received ps number) := ih (length ▸ there)
    rw [later, received, received, post]
    by_cases own : p.1 = number
    · subst own
      rw [get_set_self there, List.filter_cons_of_pos (by simp)]
      rfl
    · rw [get_set_of_ne (Ne.symm own), List.filter_cons_of_neg (by simp [own])]

/-- A directory in which something has been published is worked on, and otherwise a new one. -/
theorem adopt_spec (there : number < ds.slots.length) {history : List Publication}
    (made : ds.get number = Directory.empty.publishAll history) :
    ∃ adopted ds', ds.adopt (some number) = (adopted, ds') ∧ adopted < ds'.slots.length ∧
      (adopted = number ↔ history ≠ []) ∧ ds'.get adopted = ds.get number ∧
      ∀ other, ds'.get other = ds.get other := by
  have size : (ds.get number).size = 0 ↔ history = [] := by
    rw [made, Directory.size_publishAll, Finset.card_eq_zero, List.toFinset_eq_empty_iff,
      List.map_eq_nil_iff]
  by_cases nothing : history = []
  · refine ⟨ds.make.1, ds.make.2, if_pos (size.mpr nothing), by simp [make], ?_, ?_, get_make ds⟩
    · exact ⟨fun same => absurd there (same ▸ lt_irrefl _), fun some => absurd nothing some⟩
    · -- The new directory holds what the given one does, which is nothing.
      rw [get_make, made, nothing]
      simp [get, make, Directory.publishAll]
  · exact ⟨_, _, if_neg (size.not.mpr nothing), there, by simp [nothing], rfl, fun _ => rfl⟩

end Directories

/-- The channel keys of configured peers. -/
def Config.publications (config : Config) : List Publication :=
  config.peerKeys.map fun e => ⟨.channelPublicKey, e.1, e.2⟩

namespace Coordinator

open Directories (received)
open Publication (found)

variable {ds : Directories} {number : ℕ} {history : List Publication}

theorem publishPeers_eq (d : Directory) (config : Config) :
    publishPeers d config.peerKeys = d.publishAll config.publications := by
  rw [publishPeers, Directory.publishAll, Config.publications, List.foldl_map]
  rfl

/-- Without a given key a payload is sealed for the key that is found in the directory. -/
theorem forward_fst (k : Coordinator) (d : Directory) (payload : Bytes) (recipient : String)
    (nonce : Bytes) : (k.forward d payload recipient none nonce).1 =
      (d.peer recipient).bind fun key =>
        Outcome.ofValue (sealFor key payload k.keys k.config.derivation nonce) := by
  unfold forward
  dsimp only
  generalize Except.bind (d.peer recipient) _ = made
  cases made <;> rfl

/-- The recipient is unknown exactly if no key of it was published: sealing for a key that is found
fails for other reasons. -/
theorem unknownPeer_iff (ps : List Publication) (recipient : String)
    (sealing : Bytes → Except BadValue SealedMessage) :
    (∃ kind owner, ((found ps .channelPublicKey recipient).bind fun key =>
        Outcome.ofValue (sealing key)) = .error (.unknownPeer kind owner)) ↔
      ∀ p ∈ ps, p.subject ≠ (.channelPublicKey, recipient) := by
  cases looked : found ps .channelPublicKey recipient with
  | error f =>
    obtain ⟨rfl, none⟩ := Publication.found_eq_error_iff.mp looked
    exact ⟨fun _ => none, fun _ => ⟨_, _, rfl⟩⟩
  | ok key =>
    constructor
    · rintro ⟨kind, owner, failed⟩
      change Outcome.ofValue (sealing key) = _ at failed
      cases made : sealing key with
      | ok m => simp [made, Outcome.ofValue] at failed
      | error cause => simp [made, Outcome.ofValue] at failed
    · intro none
      have unknown := Publication.found_eq_error_iff.mpr ⟨rfl, none⟩
      rw [looked] at unknown
      cases unknown

/-- A coordinator is made on whichever directory it adopts, where the channel keys of configured
peers are published. -/
theorem exists_new (material : Material) (actors : List Actor) (config : Config)
    (keys : Option KeyPair) (draw : ℕ) {directory : Option ℕ} {adopted : ℕ} {ds₁ : Directories}
    (adopts : ds.adopt directory = (adopted, ds₁)) :
    ∃ k, new material actors config keys draw directory ds =
        .ok (k, ds₁.set adopted ((ds₁.get adopted).publishAll config.publications)) ∧
      k.directory = adopted := by
  rw [← publishPeers_eq]
  cases keys with
  | some pair => exact ⟨_, by simp only [new, adopts, Outcome.bind_ok]; rfl, rfl⟩
  | none =>
    obtain ⟨pair, drawn, -⟩ := KeyPair.exists_ofDraw config.curve draw
    exact ⟨_, by simp only [new, adopts, drawn, Outcome.ofValue, Outcome.bind_ok]; rfl, rfl⟩

/-- A coordinator is made on a given directory with a history of publications. It works on this
directory exactly if the history is not empty, and otherwise on a new one; no other directory
changes. The one it works on then holds the history, overridden by the keys of configured peers.
Whatever is published later in either of the two, the coordinator, in whatever state `k'` it is
then, seals a payload for the last key of the recipient in the one that is worked on, and the
recipient is unknown exactly if there is none. With a history the two are one, so that every later
publication counts. -/
theorem new_on_directory (material : Material) (actors : List Actor) (config : Config)
    (keys : Option KeyPair) (draw : ℕ) (there : number < ds.slots.length)
    (made : ds.get number = Directory.empty.publishAll history) :
    ∃ k ds', new material actors config keys draw (some number) ds = .ok (k, ds') ∧
      (k.directory = number ↔ history ≠ []) ∧
      (∀ other, other ≠ k.directory → ds'.get other = ds.get other) ∧
      (∀ kind owner, (ds'.get k.directory).lookup kind owner =
        found (history ++ config.publications) kind owner) ∧
      ∀ later : List (ℕ × Publication), (∀ p ∈ later, p.1 = number ∨ p.1 = k.directory) →
        (history ≠ [] → received later k.directory = later.map Prod.snd) ∧
        ∀ (k' : Coordinator) (payload : Bytes) (recipient : String) (nonce : Bytes),
          k'.directory = k.directory →
          let published := history ++ config.publications ++ received later k.directory
          let forwarded := (k'.forward ((ds'.postAll later).get k'.directory) payload recipient none
            nonce).1
          forwarded = ((found published .channelPublicKey recipient).bind fun key =>
              Outcome.ofValue (sealFor key payload k'.keys k'.config.derivation nonce)) ∧
            ((∃ kind owner, forwarded = .error (.unknownPeer kind owner)) ↔
              ∀ p ∈ published, p.subject ≠ (.channelPublicKey, recipient)) := by
  obtain ⟨adopted, ds₁, adopts, there₁, given, content, others⟩ :=
    Directories.adopt_spec there made
  obtain ⟨k, isMade, rfl⟩ := exists_new material actors config keys draw adopts
  set ds' := ds₁.set k.directory ((ds₁.get k.directory).publishAll config.publications) with after
  have there' : k.directory < ds'.slots.length := by rwa [after, Directories.length_set]
  -- What the directory that is worked on holds at the start.
  have start : ds'.get k.directory =
      Directory.empty.publishAll (history ++ config.publications) := by
    rw [after, Directories.get_set_self there₁, content, made, Directory.publishAll_append]
  refine ⟨k, ds', isMade, given, ?_, ?_, ?_⟩
  · intro other different
    rw [after, Directories.get_set_of_ne different, others]
  · intro kind owner
    rw [start, Directory.lookup_publishAll_empty]
  · refine fun later handles => ⟨fun some => ?_, fun k' payload recipient nonce same => ?_⟩
    · have all : later.filter (fun p => p.1 = k.directory) = later := by
        refine List.filter_eq_self.mpr fun p member => decide_eq_true ?_
        exact (handles p member).elim (fun own => own.trans (given.mpr some).symm) id
      rw [received, all]
    · intro published forwarded
      have holds : (ds'.postAll later).get k.directory = Directory.empty.publishAll published := by
        rw [Directories.get_postAll there', start, ← Directory.publishAll_append]
      have sealed : forwarded = (found published .channelPublicKey recipient).bind fun key =>
          Outcome.ofValue (sealFor key payload k'.keys k'.config.derivation nonce) := by
        rw [← Directory.lookup_publishAll_empty, ← holds, ← same]
        exact k'.forward_fst _ payload recipient nonce
      exact ⟨sealed, sealed ▸ unknownPeer_iff published recipient _⟩

/-- A coordinator on a directory with the key of Alice finds the key that Bob publishes there later,
and no key of Carol. -/
theorem new_on_directory_of_alice :
    ∃ material shares, Dealer.deal 2 1 (fun _ => 0) = .ok (material, shares) ∧
      let d := Directory.empty.publishAll [⟨.channelPublicKey, "alice", [1]⟩]
      let later : List (ℕ × Publication) := [(0, ⟨.channelPublicKey, "bob", [2]⟩)]
      ∃ k ds', new material [] .default none 0 (some 0) ⟨[d]⟩ = .ok (k, ds') ∧ k.directory = 0 ∧
        (∀ p ∈ later, p.1 = 0 ∨ p.1 = k.directory) ∧
        ∀ payload nonce,
          (k.forward ((ds'.postAll later).get k.directory) payload "bob" none nonce).1 =
              Outcome.ofValue (sealFor [2] payload k.keys k.config.derivation nonce) ∧
            ∃ kind owner, (k.forward ((ds'.postAll later).get k.directory) payload "carol" none
              nonce).1 = .error (.unknownPeer kind owner) := by
  obtain ⟨material, shares, dealt⟩ := Gathering.exists_deal_of_zero_draws
  refine ⟨material, shares, dealt, ?_⟩
  intro d later
  have there : 0 < (⟨[d]⟩ : Directories).slots.length := Nat.zero_lt_one
  have made : (⟨[d]⟩ : Directories).get 0 =
      Directory.empty.publishAll [⟨.channelPublicKey, "alice", [1]⟩] := rfl
  obtain ⟨k, ds', isMade, given, -, -, finds⟩ :=
    new_on_directory material [] .default none 0 there made
  have own : k.directory = 0 := given.mpr (List.cons_ne_nil _ _)
  have handles : ∀ p ∈ later, p.1 = 0 ∨ p.1 = k.directory := by simp [later]
  obtain ⟨all, forwards⟩ := finds later handles
  refine ⟨k, ds', isMade, own, handles, fun payload nonce => ?_⟩
  have bob := (forwards k payload "bob" nonce rfl).1
  have carol := (forwards k payload "carol" nonce rfl).2
  rw [all (List.cons_ne_nil _ _)] at bob carol
  exact ⟨bob, carol.mpr (by decide +kernel)⟩

/-- A directory without records is not worked on: the key that Alice publishes in it later is found
there, but not when a payload is forwarded to her. -/
theorem new_passes_directory_over :
    ∃ material shares alice, Dealer.deal 2 1 (fun _ => 0) = .ok (material, shares) ∧
      KeyPair.ofDraw .k256 1 = .ok alice ∧
      let later := [(0, ⟨.channelPublicKey, "alice", alice.publicBytes⟩)]
      ∃ k ds', new material [] .default none 0 (some 0) ⟨[.empty]⟩ = .ok (k, ds') ∧
        ((ds'.postAll later).get 0).peer "alice" = .ok alice.publicBytes ∧
        ∀ payload nonce, (k.forward ((ds'.postAll later).get k.directory) payload "alice" none
          nonce).1 = .error (.unknownPeer .channelPublicKey "alice") := by
  obtain ⟨material, shares, dealt⟩ := Gathering.exists_deal_of_zero_draws
  obtain ⟨alice, drawn, -⟩ := KeyPair.exists_ofDraw .k256 1
  have adopts : (⟨[.empty]⟩ : Directories).adopt (some 0) = (1, ⟨[.empty, .empty]⟩) := rfl
  obtain ⟨k, isMade, own⟩ := exists_new material [] .default none 0 adopts
  refine ⟨material, shares, alice, dealt, drawn, k, _, isMade, ?_, fun payload nonce => ?_⟩
  · rw [Directories.get_postAll (by simp), Directories.get_set_of_ne (by decide)]
    rfl
  · rw [own, forward_fst, Directories.get_postAll (by simp), Directories.get_set_self (by simp)]
    rfl

end Coordinator

end Quorum
