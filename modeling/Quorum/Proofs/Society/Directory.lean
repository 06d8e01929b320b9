import Mathlib.Data.Finset.Card
import Mathlib.Data.List.Dedup
import Mathlib.Data.List.Sort
import Mathlib.Data.String.Basic
import Quorum.Proofs.Record.Key
import Quorum.Proofs.Table
import Quorum.Society.Directory

/-!
# A directory is a map

A directory stores all its records under written keys, but a key belongs to one kind and one owner.
So after any publications a look-up finds what was published last of exactly that kind and owner,
and there are as many records as kinds and owners that were published. The list of peers is read
back from the written keys, and only owners that a key can be read back for come out of it as they
went in.

## Main definitions

* `Publication`, `Directory.publishAll` — records that are published one after another
* `Publication.last?`, `Publication.found` — the value that was published last of a kind and an
  owner, and what looking it up finds
* `Publication.peers` — the owners of published channel keys
* `Directory.record?` — a directory as a map from kinds and owners

## Main results

* `Directory.record?_publishAll` — a directory holds what was published last
* `Directory.publishAll_refines_map` — look-ups and the number of records after any publications
* `Directory.count_peers` — how often an owner is listed
* `Directory.peers_publishAll` — when the list of peers is exact
-/

namespace Quorum

/-- A record that is published. -/
structure Publication where
  kind : RecordKind
  owner : String
  value : Bytes
deriving DecidableEq

namespace Publication

/-- What a record is about. -/
def subject (p : Publication) : RecordKind × String := (p.kind, p.owner)

/-- The value that was published last of a kind and an owner. -/
def last? (ps : List Publication) (kind : RecordKind) (owner : String) : Option Bytes :=
  (ps.filter fun p => p.subject = (kind, owner)).getLast?.map value

/-- What looking up a kind and an owner finds: the value that was published last. -/
def found (ps : List Publication) (kind : RecordKind) (owner : String) : Outcome Bytes :=
  (last? ps kind owner).elim (.error (.unknownPeer kind owner)) .ok

/-- The owners of published channel keys. -/
def peers (ps : List Publication) : List String :=
  (ps.filter fun p => p.kind = .channelPublicKey).map owner

variable {ps qs : List Publication} {kind : RecordKind} {owner : String}

theorem last?_append :
    last? (ps ++ qs) kind owner = (last? qs kind owner).or (last? ps kind owner) := by
  rw [last?, List.filter_append, List.getLast?_append, Option.map_or, last?, last?]

theorem last?_singleton (p : Publication) :
    last? [p] kind owner = if p.subject = (kind, owner) then some p.value else none := by
  by_cases same : p.subject = (kind, owner)
  · simp [last?, same]
  · simp [last?, same]

theorem last?_eq_none_iff :
    last? ps kind owner = none ↔ ∀ p ∈ ps, p.subject ≠ (kind, owner) := by
  simp [last?]

theorem found_eq_error_iff {f : Fault} : found ps kind owner = .error f ↔
    f = .unknownPeer kind owner ∧ ∀ p ∈ ps, p.subject ≠ (kind, owner) := by
  rw [found, ← last?_eq_none_iff]
  cases last? ps kind owner with
  | none => simp [eq_comm]
  | some value => simp

theorem mem_peers_iff : owner ∈ peers ps ↔ last? ps .channelPublicKey owner ≠ none := by
  rw [Ne, last?_eq_none_iff]
  push Not
  simp only [peers, List.mem_map, List.mem_filter, decide_eq_true_eq, subject, Prod.mk.injEq,
    and_assoc]

end Publication

open Publication (last? last?_append last?_singleton found)

namespace Directory

/-- The directory after publications. -/
def publishAll (d : Directory) (ps : List Publication) : Directory :=
  ps.foldl (fun d p => d.publish p.kind p.owner p.value) d

/-- The record of a kind and an owner. -/
def record? (d : Directory) (kind : RecordKind) (owner : String) : Option Bytes :=
  d.records.get? (RecordKey.write kind owner)

variable {d : Directory} {ps : List Publication} {kind : RecordKind} {owner : String}

theorem lookup_eq (d : Directory) (kind : RecordKind) (owner : String) :
    d.lookup kind owner = (d.record? kind owner).elim (.error (.unknownPeer kind owner)) .ok := by
  unfold lookup record?
  cases d.records.get? (RecordKey.write kind owner) <;> rfl

theorem publishAll_append (d : Directory) (ps qs : List Publication) :
    d.publishAll (ps ++ qs) = (d.publishAll ps).publishAll qs := List.foldl_append

/-- Publishing a record replaces that of its kind and owner and no other. -/
theorem record?_publish (d : Directory) (p : Publication) (kind : RecordKind) (owner : String) :
    (d.publish p.kind p.owner p.value).record? kind owner =
      if p.subject = (kind, owner) then some p.value else d.record? kind owner := by
  rw [record?, publish, Table.get?_insert, record?]
  refine if_congr ?_ rfl rfl
  rw [RecordKey.write_eq_write_iff, Publication.subject, Prod.mk.injEq, eq_comm, @eq_comm _ owner]

/-- A directory holds what was published last, and otherwise what it held before. -/
theorem record?_publishAll (d : Directory) (ps : List Publication) (kind : RecordKind)
    (owner : String) :
    (d.publishAll ps).record? kind owner = (last? ps kind owner).or (d.record? kind owner) := by
  induction ps using List.reverseRecOn with
  | nil => rfl
  | append_singleton ps p ih =>
    rw [publishAll_append, last?_append, last?_singleton]
    change ((d.publishAll ps).publish p.kind p.owner p.value).record? kind owner = _
    rw [record?_publish, ih]
    split <;> rfl

theorem record?_publishAll_empty :
    (empty.publishAll ps).record? kind owner = last? ps kind owner := by
  rw [record?_publishAll]
  exact Option.or_none

theorem lookup_publishAll_empty :
    (empty.publishAll ps).lookup kind owner = found ps kind owner := by
  rw [lookup_eq, record?_publishAll_empty, found]

/-- The keys of a directory are those of the published records. -/
theorem mem_keys_publishAll {key : String} : key ∈ (empty.publishAll ps).records.keys ↔
    ∃ p ∈ ps, RecordKey.write p.kind p.owner = key := by
  induction ps using List.reverseRecOn with
  | nil => simp [publishAll, empty, Table.empty, Table.keys]
  | append_singleton ps p ih =>
    rw [publishAll_append]
    change key ∈ ((empty.publishAll ps).records.insert _ _).keys ↔ _
    rw [Table.mem_keys_insert, ih]
    simp only [List.mem_append, List.mem_singleton, or_and_right, exists_or, exists_eq_left]
    rw [or_comm, @eq_comm _ key]

/-- There are as many records as kinds and owners that were published. -/
theorem size_publishAll :
    (empty.publishAll ps).size = (ps.map Publication.subject).toFinset.card := by
  set d := empty.publishAll ps with d_def
  let key (subject : RecordKind × String) : String := RecordKey.write subject.1 subject.2
  have injective : Function.Injective key := fun s t same =>
    Prod.ext_iff.mpr (RecordKey.write_eq_write_iff.mp same)
  have keys : d.records.keys.toFinset = (ps.map Publication.subject).toFinset.image key := by
    ext written
    rw [List.mem_toFinset, d_def, mem_keys_publishAll]
    simp [key, Publication.subject]
  have nodup : d.records.keys.Nodup := d.records.nodup_keys
  rw [size, ← Table.length_keys, ← List.toFinset_card_of_nodup nodup, keys,
    Finset.card_image_of_injective _ injective]

/-- After any publications a look-up gives the value that was published last of exactly that kind
and owner, and fails exactly if there was none; there are as many records as different kinds and
owners that were published, and no two of them have the same key. -/
theorem publishAll_refines_map (ps : List Publication) :
    let d := empty.publishAll ps
    (∀ kind owner, d.lookup kind owner =
      (last? ps kind owner).elim (.error (.unknownPeer kind owner)) .ok) ∧
    (∀ kind owner f, d.lookup kind owner = .error f ↔
      f = .unknownPeer kind owner ∧ ∀ p ∈ ps, p.subject ≠ (kind, owner)) ∧
    d.size = (ps.map Publication.subject).toFinset.card ∧
    ∀ p q : Publication, RecordKey.write p.kind p.owner = RecordKey.write q.kind q.owner ↔
      p.subject = q.subject := by
  intro d
  refine ⟨fun kind owner => lookup_publishAll_empty, fun kind owner f => ?_, size_publishAll,
    fun p q => ?_⟩
  · rw [lookup_publishAll_empty, Publication.found_eq_error_iff]
  · rw [RecordKey.write_eq_write_iff, Publication.subject, Publication.subject, Prod.mk.injEq]

section Peers

/-! ### The list of peers -/

theorem channelOwner?_eq_some_iff {key : String} : channelOwner? key = some owner ↔
    RecordKey.isOwner owner.toList = true ∧ (key = RecordKey.write .channelPublicKey owner ∨
      key = RecordKey.write .channelPublicKey (owner ++ "\n")) := by
  rw [← RecordKey.read?_eq_some_iff]
  unfold channelOwner?
  split
  · next read => simp [read]
  · next other =>
    refine ⟨nofun, fun read => ?_⟩
    exact absurd read (other owner)

private theorem countP_or {l : List String} {s t : String} (different : s ≠ t) :
    l.countP (fun key => key = s ∨ key = t) = l.count s + l.count t := by
  induction l with
  | nil => rfl
  | cons key l ih => grind

theorem count_keys (d : Directory) (kind : RecordKind) (owner : String) :
    d.records.keys.count (RecordKey.write kind owner) =
      if d.record? kind owner = none then 0 else 1 := by
  have nodup : d.records.keys.Nodup := d.records.nodup_keys
  have there : RecordKey.write kind owner ∈ d.records.keys ↔ d.record? kind owner ≠ none := by
    rw [Table.mem_keys_iff, Option.ne_none_iff_exists', record?]
  rw [nodup.count, if_congr there rfl rfl, ite_not]

/-- An owner is listed for its own channel key and for that of the owner with a line break behind
it, provided that keys are read back for it. -/
theorem count_peers (d : Directory) (owner : String) :
    d.peers.count owner = if RecordKey.isOwner owner.toList then
      (if d.record? .channelPublicKey owner = none then 0 else 1) +
        (if d.record? .channelPublicKey (owner ++ "\n") = none then 0 else 1) else 0 := by
  rw [peers, (List.mergeSort_perm _ _).count_eq, List.count_filterMap]
  split
  · next isOwner =>
    have different : RecordKey.write .channelPublicKey owner ≠
        RecordKey.write .channelPublicKey (owner ++ "\n") := by
      rw [Ne, RecordKey.write_eq_write_iff, ← String.toList_inj, String.toList_append]
      simp
    rw [← count_keys, ← count_keys, ← countP_or different]
    refine List.countP_congr fun key _ => ?_
    rw [beq_iff_eq, channelOwner?_eq_some_iff, decide_eq_true_iff, and_iff_right isOwner]
  · next isOwner =>
    refine List.countP_eq_zero.mpr fun key _ => ?_
    rw [beq_iff_eq, channelOwner?_eq_some_iff, not_and]
    exact fun isOwner' => absurd isOwner' isOwner

/-- The list of peers is in order. -/
theorem pairwise_peers (d : Directory) : d.peers.Pairwise (· ≤ ·) :=
  List.pairwise_mergeSort' (· ≤ ·) _

/-- Whoever is listed consists of word characters, dots and hyphens. -/
theorem isOwner_of_mem_peers (listed : owner ∈ d.peers) :
    RecordKey.isOwner owner.toList = true := by
  have positive := List.count_pos_iff.mpr listed
  rw [count_peers] at positive
  by_contra other
  rw [if_neg other] at positive
  exact absurd positive (lt_irrefl 0)

theorem count_peers_publishAll (ps : List Publication) (owner : String) :
    (empty.publishAll ps).peers.count owner = if RecordKey.isOwner owner.toList then
      (if owner ∈ Publication.peers ps then 1 else 0) +
        (if owner ++ "\n" ∈ Publication.peers ps then 1 else 0) else 0 := by
  simp only [count_peers, record?_publishAll_empty, Publication.mem_peers_iff, ite_not]

/-- The list of peers is exact if no published owner has other characters. -/
theorem peers_publishAll_of_isOwner
    (names : ∀ owner ∈ Publication.peers ps, RecordKey.isOwner owner.toList = true) :
    (empty.publishAll ps).peers = (Publication.peers ps).dedup.mergeSort fun s t => s ≤ t := by
  -- No owner with a line break behind it was published, so nobody is listed for another one.
  have unbroken (owner : String) : owner ++ "\n" ∉ Publication.peers ps := by
    intro member
    have name := names _ member
    rw [String.toList_append, show "\n".toList = ['\n'] from rfl,
      RecordKey.not_isOwner_lineBreak] at name
    cases name
  have same (owner : String) : (empty.publishAll ps).peers.count owner =
      (Publication.peers ps).dedup.count owner := by
    rw [count_peers_publishAll, List.count_dedup, if_neg (unbroken owner), add_zero]
    split
    · rfl
    · next other => exact (if_neg fun member => other (names owner member)).symm
  have perm := (List.perm_iff_count.mpr same).trans
    (List.mergeSort_perm _ fun s t => s ≤ t).symm
  exact perm.eq_of_pairwise (fun s t _ _ => le_antisymm) (pairwise_peers _)
    (List.pairwise_mergeSort' (· ≤ ·) _)

/-- After any publications the list of peers is in order and has an owner once for its own channel
key and once for that of the owner with a line break behind it, but only if the owner consists of
word characters, dots and hyphens. So it is the list without repetitions of all that a channel key
is found for exactly if all of them consist of such characters. -/
theorem peers_publishAll (ps : List Publication) :
    let d := empty.publishAll ps
    let published := Publication.peers ps
    d.peers.Pairwise (· ≤ ·) ∧
    (∀ owner, d.peers.count owner = if RecordKey.isOwner owner.toList then
      (if owner ∈ published then 1 else 0) + (if owner ++ "\n" ∈ published then 1 else 0) else 0) ∧
    (∀ owner, (∃ value, d.peer owner = .ok value) ↔ owner ∈ published) ∧
    (d.peers = published.dedup.mergeSort (fun s t => s ≤ t) ↔
      ∀ owner ∈ published, RecordKey.isOwner owner.toList = true) := by
  intro d published
  refine ⟨pairwise_peers d, count_peers_publishAll ps, fun owner => ?_, ?_,
    peers_publishAll_of_isOwner⟩
  · rw [peer, lookup_publishAll_empty, Publication.mem_peers_iff, found]
    cases last? ps .channelPublicKey owner with
    | none => simp
    | some value => simp
  · intro same owner member
    refine isOwner_of_mem_peers (d := d) ?_
    rw [same, (List.mergeSort_perm _ _).mem_iff, List.mem_dedup]
    exact member

/-- An owner with a line break behind it is listed without it, and an owner with a blank is not
listed, although the channel keys of both are found. -/
theorem peers_with_blanks :
    let ps : List Publication := [⟨.channelPublicKey, "alice", [1]⟩,
      ⟨.channelPublicKey, "alice\n", [2]⟩, ⟨.channelPublicKey, "bob smith", [3]⟩]
    let d := empty.publishAll ps
    d.peers = ["alice", "alice"] ∧ (∀ p ∈ ps, d.peer p.owner = .ok p.value) ∧
      d.peers ≠ (Publication.peers ps).dedup.mergeSort fun s t => s ≤ t := by
  intro ps d
  have read : d.records.keys.filterMap channelOwner? = ["alice", "alice"] := by decide +kernel
  have listed : d.peers = ["alice", "alice"] := by
    rw [peers, read]
    exact List.mergeSort_of_pairwise (by decide)
  refine ⟨listed, by decide +kernel, fun same => ?_⟩
  have missing : "bob smith" ∈ d.peers := by
    rw [same, (List.mergeSort_perm _ _).mem_iff, List.mem_dedup]
    decide +kernel
  rw [listed] at missing
  exact absurd missing (by decide)

end Peers

end Directory

end Quorum
