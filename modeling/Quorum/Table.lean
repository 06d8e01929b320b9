/-!
# Tables

Finite maps that remember the order in which their keys came in. Writing to a key that is present
replaces its value and keeps its position.

## Main definitions

* `Table` — a list of entries in which no key occurs twice
* `Table.get?`, `Table.insert`, `Table.erase` — look-up, writing and removal
* `Table.ofList` — entries written one after another

## Main results

* `get?_insert`, `get?_erase` — what a look-up finds after writing and after removal
-/

namespace Quorum

/-- A finite map whose entries are kept in the order in which their keys came in. -/
structure Table (κ α : Type) where
  /-- Keys with their values. -/
  entries : List (κ × α)
  /-- No key occurs twice. -/
  nodup_keys : (entries.map Prod.fst).Nodup

namespace Table

variable {κ α : Type}

@[ext] theorem ext {s t : Table κ α} (h : s.entries = t.entries) : s = t := by
  cases s; cases t; cases h; rfl

/-- The table without entries. -/
def empty : Table κ α := ⟨[], List.nodup_nil⟩

instance : Inhabited (Table κ α) := ⟨empty⟩

instance [DecidableEq κ] [DecidableEq α] : DecidableEq (Table κ α) := fun s t =>
  if h : s.entries = t.entries then isTrue (ext h) else isFalse fun e => h (e ▸ rfl)

/-- The number of entries. -/
def size (t : Table κ α) : Nat := t.entries.length

/-- The keys in their order. -/
def keys (t : Table κ α) : List κ := t.entries.map Prod.fst

/-- The values in the order of their keys. -/
def values (t : Table κ α) : List α := t.entries.map Prod.snd

variable [DecidableEq κ]

/-- The value of the first entry with a key. -/
def find (k : κ) : List (κ × α) → Option α
  | [] => none
  | (l, v) :: r => if l = k then some v else find k r

/-- The value that a key has. -/
def get? (t : Table κ α) (k : κ) : Option α := find k t.entries

/-- Whether a key is present. -/
def contains (t : Table κ α) (k : κ) : Bool := (t.get? k).isSome

/-- Entries with the value of one key replaced, or with a new entry at the end. -/
def put (k : κ) (v : α) : List (κ × α) → List (κ × α)
  | [] => [(k, v)]
  | (l, w) :: r => if l = k then (k, v) :: r else (l, w) :: put k v r

theorem mem_keys_put {k l : κ} {v : α} {es : List (κ × α)} :
    l ∈ (put k v es).map Prod.fst ↔ l = k ∨ l ∈ es.map Prod.fst := by
  induction es with
  | nil => simp [put]
  | cons e r ih =>
    obtain ⟨a, w⟩ := e
    by_cases h : a = k
    · subst h; simp [put]
    · simp only [put, h, if_false, List.map_cons, List.mem_cons, ih]
      constructor
      · rintro (rfl | rfl | h')
        · exact .inr (.inl rfl)
        · exact .inl rfl
        · exact .inr (.inr h')
      · rintro (rfl | rfl | h')
        · exact .inr (.inl rfl)
        · exact .inl rfl
        · exact .inr (.inr h')

theorem nodup_put {k : κ} {v : α} {es : List (κ × α)} (h : (es.map Prod.fst).Nodup) :
    ((put k v es).map Prod.fst).Nodup := by
  induction es with
  | nil => simp [put]
  | cons e r ih =>
    obtain ⟨a, w⟩ := e
    simp only [List.map_cons, List.nodup_cons] at h
    by_cases ha : a = k
    · subst ha; simpa [put] using h
    · simp only [put, ha, if_false, List.map_cons, List.nodup_cons]
      refine ⟨fun hm => ?_, ih h.2⟩
      rcases mem_keys_put.1 hm with rfl | hm
      · exact ha rfl
      · exact h.1 hm

/-- Writes a value to a key. -/
def insert (t : Table κ α) (k : κ) (v : α) : Table κ α :=
  ⟨put k v t.entries, nodup_put t.nodup_keys⟩

/-- Removes a key. -/
def erase (t : Table κ α) (k : κ) : Table κ α :=
  ⟨t.entries.filter fun e => e.1 ≠ k,
    t.nodup_keys.sublist (List.filter_sublist.map Prod.fst)⟩

/-- Entries written one after another. -/
def ofList (es : List (κ × α)) : Table κ α := es.foldl (fun t e => t.insert e.1 e.2) empty

theorem find_put (k l : κ) (v : α) (es : List (κ × α)) :
    find l (put k v es) = if l = k then some v else find l es := by
  induction es with
  | nil => simp [put, find, eq_comm]
  | cons e r ih =>
    obtain ⟨a, w⟩ := e
    by_cases ha : a = k
    · subst ha
      by_cases hl : l = a
      · subst hl; simp [put, find]
      · simp [put, find, hl, Ne.symm hl]
    · by_cases hl : l = k
      · subst hl; simp [put, find, ha, ih]
      · simp [put, find, ha, hl, ih]

/-- After writing, the key has the new value and every other key what it had. -/
theorem get?_insert (t : Table κ α) (k l : κ) (v : α) :
    (t.insert k v).get? l = if l = k then some v else t.get? l :=
  find_put k l v t.entries

theorem find_filter (k l : κ) (es : List (κ × α)) :
    find l (es.filter fun e => e.1 ≠ k) = if l = k then none else find l es := by
  induction es with
  | nil => simp [find]
  | cons e r ih =>
    obtain ⟨a, w⟩ := e
    by_cases ha : a = k
    · subst ha
      rw [List.filter_cons_of_neg (by simp), ih]
      by_cases hl : l = a
      · simp [hl]
      · simp [find, hl, Ne.symm hl]
    · rw [List.filter_cons_of_pos (by simp [ha])]
      by_cases hl : a = l
      · subst hl; simp [find, ha]
      · simp only [find, hl, if_false, ih]

/-- After removal, the key has no value and every other key what it had. -/
theorem get?_erase (t : Table κ α) (k l : κ) :
    (t.erase k).get? l = if l = k then none else t.get? l :=
  find_filter k l t.entries

@[simp] theorem get?_empty (k : κ) : (empty : Table κ α).get? k = none := rfl

end Table

end Quorum
