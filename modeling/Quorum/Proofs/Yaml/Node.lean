import Mathlib.Data.Nat.Notation
import Quorum.Yaml.Node

/-!
# Tokens make nodes

Nodes without names and tags leave the state of the reader as it is, but for the tokens that they
consist of. Each token read costs at most one unit of fuel, so as much fuel as there are tokens is
enough. A node whose first token ends no entry is read as a key or a value, and entries are read one
after the other until the end of their mapping. Where the tokens break off, reading fails.

## Main definitions

* `Yaml.Parses` — tokens that are read as a node
* `Yaml.ParsesEntries` — tokens that are read as the entries of a mapping
* `Yaml.FailsEntries`, `Yaml.BreaksOff` — tokens that end before their document does

## Main results

* `Yaml.Parses.scalar`, `Yaml.Parses.empty`, `Yaml.Parses.mapping` — nodes
* `Yaml.ParsesEntries.cons` — an entry in front of others
* `Yaml.ParsesEntries.document` — a document of entries
* `Yaml.BreaksOff.document` — a document that breaks off
-/

namespace Quorum

namespace Yaml

/-- Tokens that are read as a node, whatever follows them. -/
structure Parses (ts : List Token) (n : Node) : Prop where
  starts : ∃ t ∈ ts.head?, t ≠ .key ∧ t ≠ .value ∧ t ≠ .blockEnd
  reads : ∀ ⦃fuel : ℕ⦄, ts.length ≤ fuel → ∀ (loose : Bool) (rest : List Token) (s : Source),
    (node fuel true loose).run { s with tokens := ts ++ rest } = .ok (n, { s with tokens := rest })

/-- Tokens that are read as the entries of a mapping, up to its end. -/
def ParsesEntries (ts : List Token) (es : List (Node × Node)) : Prop :=
  ∀ ⦃fuel : ℕ⦄, ts.length < fuel → ∀ (rest : List Token) (s : Source),
    (entries fuel).run { s with tokens := ts ++ .blockEnd :: rest } =
      .ok (es, { s with tokens := rest })

variable {ts vs : List Token} {n k v : Node} {es : List (Node × Node)}

namespace Parses

theorem scalar (plain : Bool) (s : String) :
    Parses [.scalar plain s] (.scalar (scalarTag none plain s) s) where
  starts := ⟨_, rfl, by simp⟩
  reads fuel enough loose rest s := by
    obtain ⟨fuel, rfl⟩ := Nat.exists_eq_succ_of_ne_zero (by simp at enough; omega : fuel ≠ 0)
    simp only [node]
    rfl

theorem empty : Parses [.openMap, .closeMap] (.mapping .map []) where
  starts := ⟨_, rfl, by simp⟩
  reads fuel enough loose rest s := by
    obtain ⟨fuel, rfl⟩ := Nat.exists_eq_add_of_le enough
    rw [Nat.add_comm]
    simp only [List.length_cons, List.length_nil, node, mapEntries]
    rfl

theorem mapping (parses : ParsesEntries ts es) :
    Parses (.mappingStart :: (ts ++ [.blockEnd])) (.mapping .map es) where
  starts := ⟨_, rfl, by simp⟩
  reads fuel enough loose rest s := by
    obtain ⟨fuel, rfl⟩ := Nat.exists_eq_succ_of_ne_zero (by simp at enough; omega : fuel ≠ 0)
    have read := parses (by simp at enough; omega : ts.length < fuel) rest s
    simp only [node, List.cons_append, List.append_assoc, List.nil_append]
    change ((entries fuel).run { s with tokens := ts ++ .blockEnd :: rest } >>=
      fun p => pure (Node.mapping .map p.1, p.2) : Except Failure (Node × Source)) = _
    rw [read]
    rfl

/-- A node is read where it might be absent. -/
theorem nodeBefore (parses : Parses ts n) {fuel : ℕ} (enough : ts.length ≤ fuel)
    (loose : Bool) (rest : List Token) (s : Source) :
    (Yaml.nodeBefore (fuel + 1) [.key, .value, .blockEnd] true loose).run
      { s with tokens := ts ++ rest } = .ok (n, { s with tokens := rest }) := by
  obtain ⟨t, head, key, value, blockEnd⟩ := parses.starts
  obtain ⟨ts, rfl⟩ := List.head?_eq_some_iff.mp head
  have other : ([.key, .value, .blockEnd] : List Token).contains t = false := by
    simp [key, value, blockEnd]
  simp only [Yaml.nodeBefore]
  change ((if ([.key, .value, .blockEnd] : List Token).contains t then pure .absent
    else node fuel true loose) : Reader Node).run _ = _
  rw [other]
  exact parses.reads enough loose rest s

end Parses

/-- The key of an entry is read, and then its value and the other entries. -/
theorem entries_key {ks : List Token} (key : Parses ks k) {fuel : ℕ} (enough : ks.length ≤ fuel)
    (rest : List Token) (s : Source) :
    (entries (fuel + 2)).run { s with tokens := .key :: (ks ++ .value :: rest) } =
      ((nodeBefore (fuel + 1) [.key, .value, .blockEnd] true true).run { s with tokens := rest } >>=
        fun v => (entries (fuel + 1)).run v.2 >>= fun es => pure ((k, v.1) :: es.1, es.2) :
          Except Failure (List (Node × Node) × Source)) := by
  have read := key.nodeBefore enough true (.value :: rest) s
  simp only [entries]
  change ((nodeBefore (fuel + 1) [.key, .value, .blockEnd] true true).run
      { s with tokens := ks ++ .value :: rest } >>= _ :
    Except Failure (List (Node × Node) × Source)) = _
  rw [read]
  rfl

/-- An entry is read, and then the others. -/
theorem entries_cons {ks : List Token} (key : Parses ks k) (value : Parses vs v) {fuel : ℕ}
    (enough : ks.length ≤ fuel ∧ vs.length ≤ fuel) (rest : List Token) (s : Source) :
    (entries (fuel + 2)).run { s with tokens := .key :: (ks ++ .value :: (vs ++ rest)) } =
      ((entries (fuel + 1)).run { s with tokens := rest } >>=
        fun es => pure ((k, v) :: es.1, es.2) : Except Failure (List (Node × Node) × Source)) := by
  rw [entries_key key enough.1, value.nodeBefore enough.2]
  rfl

namespace ParsesEntries

theorem nil : ParsesEntries [] [] := by
  intro fuel enough rest s
  obtain ⟨fuel, rfl⟩ := Nat.exists_eq_succ_of_ne_zero (by simp at enough; omega : fuel ≠ 0)
  simp only [entries]
  rfl

/-- An entry in front of others. -/
theorem cons {ks : List Token} (key : Parses ks k) (value : Parses vs v)
    (parses : ParsesEntries ts es) :
    ParsesEntries (.key :: (ks ++ .value :: (vs ++ ts))) ((k, v) :: es) := by
  intro fuel enough rest s
  simp at enough
  obtain ⟨fuel, rfl⟩ := Nat.exists_eq_add_of_le' (by omega : 2 ≤ fuel)
  have others := parses (by omega : ts.length < fuel + 1) rest s
  simp only [List.cons_append, List.append_assoc]
  rw [entries_cons key value (by omega), others]
  rfl

/-- A document that consists of entries. -/
theorem document (parses : ParsesEntries ts es) {fuel : ℕ} (enough : ts.length + 2 ≤ fuel)
    (ending : Failure) :
    (Yaml.document fuel).run' ⟨.mappingStart :: (ts ++ [.blockEnd, .streamEnd]), ending, [], []⟩ =
      .ok (some (.mapping .map es)) := by
  obtain ⟨fuel, rfl⟩ := Nat.exists_eq_succ_of_ne_zero (by omega : fuel ≠ 0)
  have read : (node (fuel + 1) true false).run
      ⟨.mappingStart :: (ts ++ [.blockEnd, .streamEnd]), ending, [], usualHandles⟩ =
        .ok (.mapping .map es, ⟨[.streamEnd], ending, [], usualHandles⟩) := by
    have mapping := (Parses.mapping parses).reads (by simp; omega : _ ≤ fuel + 1) false
      [.streamEnd] ⟨[], ending, [], usualHandles⟩
    rwa [List.cons_append, List.append_assoc] at mapping
  change Prod.fst <$> ((node (fuel + 1) true false).run
      ⟨.mappingStart :: (ts ++ [.blockEnd, .streamEnd]), ending, [], usualHandles⟩ >>= _ :
    Except Failure (Option Node × Source)) = _
  rw [read]
  simp only [documentEnds]
  rfl

end ParsesEntries

section Failing

/-! ### Tokens that break off -/

/-- Tokens that are no entries of a mapping up to its end, if reading stops behind them. -/
def FailsEntries (ts : List Token) : Prop :=
  ∀ ⦃fuel : ℕ⦄, ts.length < fuel → ∀ s : Source, s.ending = .malformed →
    (entries fuel).run { s with tokens := ts } = .error .malformed

/-- Tokens that end before their document does: a scalar, or a mapping without its end. -/
inductive BreaksOff : List Token → Prop
  | scalar (plain : Bool) (s : String) : BreaksOff [.scalar plain s]
  | mapping {ts : List Token} : FailsEntries ts → BreaksOff (.mappingStart :: ts)

namespace FailsEntries

theorem nil : FailsEntries [] := by
  rintro fuel enough ⟨-, ending, anchors, handles⟩ rfl
  obtain ⟨fuel, rfl⟩ := Nat.exists_eq_succ_of_ne_zero (by simp at enough; omega : fuel ≠ 0)
  simp only [entries]
  rfl

/-- A scalar is no key on its own. -/
theorem scalar (plain : Bool) (s : String) : FailsEntries [.scalar plain s] := by
  rintro fuel enough ⟨-, ending, anchors, handles⟩ rfl
  obtain ⟨fuel, rfl⟩ := Nat.exists_eq_succ_of_ne_zero (by simp at enough; omega : fuel ≠ 0)
  simp only [entries]
  rfl

/-- An entry in front of others. -/
theorem cons {ks : List Token} (key : Parses ks k) (value : Parses vs v) (fails : FailsEntries ts) :
    FailsEntries (.key :: (ks ++ .value :: (vs ++ ts))) := by
  intro fuel enough s ending
  simp at enough
  obtain ⟨fuel, rfl⟩ := Nat.exists_eq_add_of_le' (by omega : 2 ≤ fuel)
  have others := fails (by omega : ts.length < fuel + 1) s ending
  rw [entries_cons key value (by omega), others]
  rfl

end FailsEntries

/-- A mapping without its end. -/
theorem FailsEntries.node_eq (fails : FailsEntries ts) {fuel : ℕ} (enough : ts.length < fuel)
    (loose : Bool) {s : Source} (ending : s.ending = .malformed) :
    (node (fuel + 1) true loose).run { s with tokens := .mappingStart :: ts } =
      .error .malformed := by
  have read := fails enough s ending
  simp only [node]
  change ((entries fuel).run { s with tokens := ts } >>=
    fun p => pure (Node.mapping .map p.1, p.2) : Except Failure (Node × Source)) = _
  rw [read]
  rfl

/-- An entry whose value breaks off. -/
theorem BreaksOff.value {ks : List Token} (key : Parses ks k) (breaks : BreaksOff vs) :
    FailsEntries (.key :: (ks ++ .value :: vs)) := by
  cases breaks with
  | scalar plain s =>
    have last := FailsEntries.cons key (Parses.scalar plain s) .nil
    rwa [List.append_nil] at last
  | @mapping ts fails =>
    intro fuel enough s ending
    simp at enough
    obtain ⟨fuel, rfl⟩ := Nat.exists_eq_add_of_le' (by omega : 3 ≤ fuel)
    have value := fails.node_eq (by omega : ts.length < fuel) true ending
    have read : (nodeBefore (fuel + 2) [.key, .value, .blockEnd] true true).run
        { s with tokens := .mappingStart :: ts } = .error .malformed := by
      simp only [nodeBefore]
      exact value
    rw [entries_key key (by omega), read]
    rfl

/-- A document that breaks off. -/
theorem BreaksOff.document (breaks : BreaksOff ts) {fuel : ℕ} (enough : ts.length < fuel) :
    (Yaml.document fuel).run' ⟨ts, .malformed, [], []⟩ = .error .malformed := by
  cases breaks with
  | scalar plain s =>
    obtain ⟨fuel, rfl⟩ := Nat.exists_eq_add_of_le' (by simp at enough; omega : 2 ≤ fuel)
    change Prod.fst <$> (do
      let n ← node (fuel + 2) true false
      documentEnds (fuel + 2)
      Reader.expect .streamEnd
      return some n : Reader (Option Node)).run
        ⟨[.scalar plain s], .malformed, [], usualHandles⟩ = _
    simp only [node, documentEnds]
    rfl
  | @mapping ts fails =>
    obtain ⟨fuel, rfl⟩ := Nat.exists_eq_add_of_le' (by simp at enough; omega : 1 ≤ fuel)
    have read := fails.node_eq (by simp at enough; omega : ts.length < fuel) false
      (rfl : Source.ending ⟨[], .malformed, [], usualHandles⟩ = .malformed)
    change Prod.fst <$> ((node (fuel + 1) true false).run
        ⟨.mappingStart :: ts, .malformed, [], usualHandles⟩ >>= _ :
      Except Failure (Option Node × Source)) = _
    rw [read]
    rfl

end Failing

end Yaml

end Quorum
