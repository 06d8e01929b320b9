import Quorum.Proofs.Yaml.Page
import Quorum.Yaml.Cursor

/-!
# Moving over written text

Written text holds no line ends but line feeds and no marks that take no column. So the line reached
counts the line feeds passed, and the column is that of the characters behind the last of them.

## Main results

* `Yaml.Cursor.rest_forward`, `Yaml.Cursor.index_forward`, `Yaml.Cursor.line_forward` — the place
  behind a text
* `Yaml.Cursor.column_forward`, `Yaml.Cursor.column_forward_lineFeed` — the column there
* `Yaml.Cursor.upTo_append` — the place given by what is left
-/

namespace Quorum

namespace Yaml

/-- A text goes on with a visible character that starts no comment, or is at its end. -/
def Opens (s : List Char) : Prop := ∀ c ∈ s.head?, IsGraphic c ∧ c ≠ '#'

theorem opens_nil : Opens [] := by simp [Opens]

theorem opens_cons {c : Char} {s : List Char} : Opens (c :: s) ↔ IsGraphic c ∧ c ≠ '#' := by
  simp [Opens]

theorem Opens.append {s : List Char} (opens : Opens s) (nonempty : s ≠ []) (t : List Char) :
    Opens (s ++ t) := by
  obtain ⟨c, s, rfl⟩ := List.exists_cons_of_ne_nil nonempty
  exact opens_cons.mpr (opens_cons.mp opens)

theorem Opens.ne_byteOrderMark {s : List Char} (opens : Opens s) :
    s.head? ≠ some byteOrderMark :=
  fun head => IsPrinted.ne_byteOrderMark (.inl (opens _ head).1) rfl

/-- Spaces in front of something else. -/
theorem Opens.takeWhile_spaces {s : List Char} (opens : Opens s) (n : ℕ) :
    (List.replicate n ' ' ++ s).takeWhile (· == ' ') = List.replicate n ' ' := by
  rw [List.takeWhile_append_of_pos (by simp)]
  cases s with
  | nil => simp
  | cons c s => simp [(opens c rfl).1.ne_space]

namespace Cursor

variable {k : Cursor} {s t : List Char}

theorem forward_add (k : Cursor) (n m : ℕ) : k.forward (n + m) = (k.forward n).forward m := by
  induction n generalizing k with
  | zero => rw [Nat.zero_add, forward]
  | succ n ih => rw [Nat.succ_add, forward, forward, ih]

theorem rest_step {c : Char} (starts : k.rest = c :: t) : k.step.rest = t := by
  unfold step
  rw [starts]
  dsimp only
  split <;> rfl

theorem index_step {c : Char} (starts : k.rest = c :: t) : k.step.index = k.index + 1 := by
  unfold step
  rw [starts]
  dsimp only
  split <;> rfl

theorem line_step {c : Char} (starts : k.rest = c :: t) (printed : IsPrinted c) :
    k.step.line = k.line + if c = '\n' then 1 else 0 := by
  unfold step
  rw [starts]
  by_cases lineFeed : c = '\n'
  · simp [lineFeed, show isBreak '\n' = true from rfl]
  · simp [lineFeed, printed.isBreak_iff]

theorem column_step {c : Char} (starts : k.rest = c :: t) (printed : IsPrinted c) :
    k.step.column = if c = '\n' then 0 else k.column + 1 := by
  unfold step
  rw [starts]
  by_cases lineFeed : c = '\n'
  · simp [lineFeed, show isBreak '\n' = true from rfl]
  · simp [lineFeed, printed.isBreak_iff, printed.ne_byteOrderMark]

theorem rest_forward (k : Cursor) (starts : k.rest = s ++ t) : (k.forward s.length).rest = t := by
  induction s generalizing k with
  | nil => simpa [forward] using starts
  | cons c s ih => exact ih k.step (rest_step starts)

theorem index_forward (k : Cursor) (starts : k.rest = s ++ t) :
    (k.forward s.length).index = k.index + s.length := by
  induction s generalizing k with
  | nil => rfl
  | cons c s ih =>
    rw [List.length_cons, forward, ih k.step (rest_step starts), index_step starts]
    omega

/-- Lines end at line feeds only. -/
theorem line_forward (k : Cursor) (starts : k.rest = s ++ t) (printed : ∀ c ∈ s, IsPrinted c) :
    (k.forward s.length).line = k.line + s.count '\n' := by
  induction s generalizing k with
  | nil => rfl
  | cons c s ih =>
    obtain ⟨first, others⟩ := List.forall_mem_cons.mp printed
    rw [List.length_cons, forward, ih k.step (rest_step starts) others, line_step starts first,
      List.count_cons]
    by_cases lineFeed : c = '\n'
    · simp [lineFeed]
      omega
    · simp [lineFeed]

theorem column_forward (k : Cursor) (starts : k.rest = s ++ t) (printed : ∀ c ∈ s, IsPrinted c)
    (line : '\n' ∉ s) : (k.forward s.length).column = k.column + s.length := by
  induction s generalizing k with
  | nil => rfl
  | cons c s ih =>
    obtain ⟨first, others⟩ := List.forall_mem_cons.mp printed
    obtain ⟨apart, line⟩ : '\n' ≠ c ∧ '\n' ∉ s := by simpa using line
    rw [List.length_cons, forward, ih k.step (rest_step starts) others line,
      column_step starts first, if_neg apart.symm]
    omega

/-- Behind a line feed columns are counted anew. -/
theorem column_forward_lineFeed (k : Cursor) {column : ℕ}
    (starts : k.rest = '\n' :: (List.replicate column ' ' ++ t)) :
    (k.forward (column + 1)).column = column := by
  have printed : ∀ c ∈ List.replicate column ' ', IsPrinted c := fun c member =>
    .inr (.inl (List.eq_of_mem_replicate member))
  have line : '\n' ∉ List.replicate column ' ' := fun member => by
    cases List.eq_of_mem_replicate member
  have column_eq := column_forward k.step (rest_step starts) printed line
  rw [List.length_replicate] at column_eq
  rw [forward, column_eq, column_step starts (.inr (.inr rfl)), if_pos rfl, Nat.zero_add]

theorem upTo_append (k : Cursor) (starts : k.rest = s ++ t) : k.upTo t = k.forward s.length := by
  rw [upTo, starts, List.length_append, Nat.add_sub_cancel]

/-- Spaces in front of something else are moved over. -/
theorem skipSpaces_replicate (k : Cursor) (opens : Opens t) {n : ℕ}
    (starts : k.rest = List.replicate n ' ' ++ t) : k.skipSpaces = k.forward n := by
  rw [skipSpaces, starts, opens.takeWhile_spaces, List.length_replicate]

/-- What is no comment is not moved over. -/
theorem skipComment_of_opens (opens : Opens k.rest) : k.skipComment = k := by
  refine if_neg fun comment => ?_
  exact (opens '#' comment).2 rfl

end Cursor

end Yaml

end Quorum
