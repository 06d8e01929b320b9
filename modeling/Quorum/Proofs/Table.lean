import Mathlib.Data.Int.Notation
import Mathlib.Data.List.Perm.Subperm
import Quorum.Table

/-!
# What tables hold

A key has a value exactly when the pair is an entry. Writing a fresh key adds its entry at the end,
so removing it again gives the table back, and writing to a key that is present keeps the keys as
they are.

## Main results

* `Table.get?_eq_some_iff` — looking up finds the entries
* `Table.erase_insert_of_fresh` — writing a fresh key and removing it leaves nothing behind
* `Table.entries_ofList` — a table of pairs with distinct keys has these pairs as its entries
* `Table.keys_perm_of_get?_eq` — tables with the same values have the same keys
* `Table.size_le_of_range` — a table of indices below a bound has no more entries than that
-/

namespace Quorum

namespace Table

variable {κ α : Type} [DecidableEq κ] {k l : κ} {v : α}

private theorem mem_of_find {es : List (κ × α)} (found : find k es = some v) : (k, v) ∈ es := by
  induction es with
  | nil => cases found
  | cons e es ih =>
    obtain ⟨l, w⟩ := e
    rw [find] at found
    split at found
    · next same =>
      obtain rfl := Option.some.inj found
      exact same ▸ List.mem_cons_self
    · exact List.mem_cons_of_mem _ (ih found)

private theorem find_of_mem {es : List (κ × α)} (nodup : (es.map Prod.fst).Nodup)
    (member : (k, v) ∈ es) : find k es = some v := by
  induction es with
  | nil => cases member
  | cons e es ih =>
    obtain ⟨fresh, nodup⟩ := List.nodup_cons.mp nodup
    rw [find.eq_2]
    rcases List.mem_cons.mp member with rfl | later
    · rw [if_pos rfl]
    · have different : e.1 ≠ k := fun same =>
        fresh (same ▸ List.mem_map_of_mem (f := Prod.fst) later)
      rw [if_neg different, ih nodup later]

/-- Looking up finds the entries. -/
theorem get?_eq_some_iff {t : Table κ α} : t.get? k = some v ↔ (k, v) ∈ t.entries :=
  ⟨mem_of_find, find_of_mem t.nodup_keys⟩

theorem mem_keys_iff {t : Table κ α} : k ∈ t.keys ↔ ∃ v, t.get? k = some v := by
  simp [keys, get?_eq_some_iff]

omit [DecidableEq κ] in
theorem length_keys (t : Table κ α) : t.keys.length = t.size := List.length_map _

theorem mem_keys_insert {t : Table κ α} : l ∈ (t.insert k v).keys ↔ l = k ∨ l ∈ t.keys :=
  mem_keys_put

private theorem put_of_not_mem {es : List (κ × α)} (fresh : k ∉ es.map Prod.fst) :
    put k v es = es ++ [(k, v)] := by
  induction es with
  | nil => rfl
  | cons e es ih =>
    simp only [List.map_cons, List.mem_cons, not_or] at fresh
    rw [put, if_neg (Ne.symm fresh.1), ih fresh.2, List.cons_append]

private theorem put_put (k : κ) (v w : α) (es : List (κ × α)) :
    put k v (put k w es) = put k v es := by
  induction es with
  | nil => simp [put]
  | cons e es ih =>
    obtain ⟨l, u⟩ := e
    by_cases same : l = k
    · simp [put, same]
    · simp [put, same, ih]

/-- Writing to a key twice is writing the second value. -/
theorem insert_insert (t : Table κ α) (k : κ) (v w : α) :
    (t.insert k w).insert k v = t.insert k v :=
  ext (put_put k v w t.entries)

private theorem fresh_of_get? {t : Table κ α} (fresh : t.get? k = none) : k ∉ t.keys := by
  intro member
  obtain ⟨v, found⟩ := mem_keys_iff.mp member
  rw [fresh] at found
  cases found

/-- Removing a key that is not there changes nothing. -/
theorem erase_of_fresh {t : Table κ α} (fresh : t.get? k = none) : t.erase k = t := by
  refine ext (List.filter_eq_self.mpr fun e member => ?_)
  rw [decide_eq_true_iff]
  rintro rfl
  exact fresh_of_get? fresh (List.mem_map_of_mem member)

/-- Removing a fresh key after writing it gives the table back. -/
theorem erase_insert_of_fresh {t : Table κ α} (fresh : t.get? k = none) (v : α) :
    (t.insert k v).erase k = t := by
  have added : (t.insert k v).entries = t.entries ++ [(k, v)] :=
    put_of_not_mem (fresh_of_get? fresh)
  have kept : (t.erase k).entries = t.entries := congrArg entries (erase_of_fresh fresh)
  refine ext ?_
  change (t.insert k v).entries.filter (fun e => e.1 ≠ k) = t.entries
  rw [added, List.filter_append, List.filter_cons_of_neg (by simp), List.filter_nil,
    List.append_nil]
  exact kept

/-- Pairs with distinct keys are the entries of the table that is made of them. -/
theorem entries_ofList {es : List (κ × α)} (nodup : (es.map Prod.fst).Nodup) :
    (ofList es).entries = es := by
  -- Writing fresh keys one after another appends their entries.
  suffices accumulated : ∀ t : Table κ α, (∀ e ∈ es, e.1 ∉ t.keys) →
      (es.foldl (fun t e => t.insert e.1 e.2) t).entries = t.entries ++ es from
    accumulated empty (by simp [keys, empty])
  induction es with
  | nil => simp
  | cons e es ih =>
    intro t fresh
    obtain ⟨first, rest⟩ := List.forall_mem_cons.mp fresh
    obtain ⟨later, nodup⟩ := List.nodup_cons.mp nodup
    have added : (t.insert e.1 e.2).entries = t.entries ++ [e] := put_of_not_mem first
    rw [List.foldl_cons, ih nodup, added, List.append_assoc, List.singleton_append]
    intro f member present
    rcases mem_keys_insert.mp present with same | present
    · exact later (same ▸ List.mem_map_of_mem member)
    · exact rest f member present

/-- What is found in the table made of pairs is one of them. -/
theorem mem_of_get?_ofList {es : List (κ × α)} (found : (ofList es).get? k = some v) :
    (k, v) ∈ es := by
  suffices accumulated : ∀ t : Table κ α,
      (es.foldl (fun t e => t.insert e.1 e.2) t).get? k = some v →
        (k, v) ∈ es ∨ t.get? k = some v by
    refine (accumulated empty found).resolve_right fun none => ?_
    cases none
  clear found
  induction es with
  | nil => exact fun t found => .inr found
  | cons e es ih =>
    intro t found
    rcases ih _ found with later | before
    · exact .inl (List.mem_cons_of_mem e later)
    · rw [get?_insert] at before
      by_cases same : k = e.1
      · rw [if_pos same, Option.some.injEq] at before
        exact .inl (List.mem_cons.mpr (.inl (Prod.ext same before.symm)))
      · rw [if_neg same] at before
        exact .inr before

/-- Tables in which every key has the same value have the same keys. -/
theorem keys_perm_of_get?_eq {s t : Table κ α} (same : ∀ k, s.get? k = t.get? k) :
    s.keys.Perm t.keys := by
  refine (List.perm_ext_iff_of_nodup s.nodup_keys t.nodup_keys).mpr fun k => ?_
  exact mem_keys_iff.trans ((same k).symm ▸ mem_keys_iff.symm)

theorem size_eq_of_get?_eq {s t : Table κ α} (same : ∀ k, s.get? k = t.get? k) :
    s.size = t.size := by
  rw [← length_keys, ← length_keys, (keys_perm_of_get?_eq same).length_eq]

omit [DecidableEq κ] in
/-- A table with fewer keys is smaller. -/
theorem size_le_size {s t : Table κ α} (subset : s.keys ⊆ t.keys) : s.size ≤ t.size := by
  rw [← length_keys, ← length_keys]
  exact (List.subperm_of_subset s.nodup_keys subset).length_le

/-- A table whose keys are indices below a bound has at most that many entries. -/
theorem size_le_of_range {t : Table ℤ α} {n : ℕ} (range : ∀ i ∈ t.keys, 0 ≤ i ∧ i < n) :
    t.size ≤ n := by
  have subset : t.keys ⊆ (List.range n).map (fun i : ℕ => (i : ℤ)) := by
    intro i member
    have bounds := range i member
    exact List.mem_map.mpr ⟨i.toNat, List.mem_range.mpr (by omega), by omega⟩
  have bound := (List.subperm_of_subset t.nodup_keys subset).length_le
  rwa [List.length_map, List.length_map, List.length_range] at bound

end Table

end Quorum
