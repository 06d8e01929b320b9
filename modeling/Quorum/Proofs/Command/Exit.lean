import Quorum.Command.Exit
import Quorum.Proofs.Table

/-!
# What lies where after a command

A command that fails leaves everything as it was. Files that are written at different places do not
get in each other's way: each place holds what was written there, and all other places hold what
they held before. Directories are only added.

## Main definitions

* `Exit.Failed` — a command that ended with a failure and left nothing behind

## Main results

* `Exit.Failed.leaves` — after a failure everything is as it was
* `Exit.get?_leaves_of_mem`, `Exit.get?_leaves_of_not_mem` — what places hold after a command
* `Exit.passable_leaves` — a path that could be followed still can be
-/

namespace Quorum

namespace Exit

/-- The command ended with a failure and left nothing behind. -/
structure Failed (e : Exit) : Prop where
  code_ne : e.code ≠ 0
  directories : e.directories = []
  files : e.files = []

theorem failed_failure (shown : List Shown) (message : String) : (failure shown message).Failed :=
  ⟨Nat.one_ne_zero, rfl, rfl⟩

theorem failed_crashed (shown : List Shown) (c : Crash) : (crashed shown c).Failed :=
  ⟨Nat.one_ne_zero, rfl, rfl⟩

variable {e : Exit} {place : String}

/-- After a failure everything is as it was. -/
theorem Failed.leaves (failed : e.Failed) (before : Files) : e.leaves before = before := by
  rw [Exit.leaves, failed.files, failed.directories]
  rfl

section Writing

variable {files : List NewFile}

theorem get?_foldl_of_not_mem (f : Files) (other : place ∉ files.map NewFile.path) :
    (files.foldl (fun f n => f.write n.path n.content) f).contents.get? place =
      f.contents.get? place := by
  induction files generalizing f with
  | nil => rfl
  | cons n files ih =>
    rw [List.map_cons, List.mem_cons, not_or] at other
    rw [List.foldl_cons, ih _ other.2, Files.write, Table.get?_insert, if_neg other.1]

theorem get?_foldl_of_mem (f : Files) (nodup : (files.map NewFile.path).Nodup) {n : NewFile}
    (member : n ∈ files) :
    (files.foldl (fun f n => f.write n.path n.content) f).contents.get? n.path =
      some n.content := by
  induction files generalizing f with
  | nil => cases member
  | cons m files ih =>
    obtain ⟨fresh, nodup⟩ := List.nodup_cons.mp nodup
    rw [List.foldl_cons]
    rcases List.mem_cons.mp member with rfl | later
    -- What is written later lies at other places.
    · rw [get?_foldl_of_not_mem _ fresh, Files.write, Table.get?_insert, if_pos rfl]
    · exact ih _ nodup later

theorem directories_foldl (f : Files) :
    (files.foldl (fun f n => f.write n.path n.content) f).directories = f.directories := by
  induction files generalizing f with
  | nil => rfl
  | cons n files ih => exact ih _

theorem mem_keys_foldl {f : Files} (present : place ∈ f.contents.keys) :
    place ∈ (files.foldl (fun f n => f.write n.path n.content) f).contents.keys := by
  induction files generalizing f with
  | nil => exact present
  | cons n files ih => exact ih (Table.mem_keys_insert.mpr (.inr present))

end Writing

/-- A place that nothing is written at holds what it held before. -/
theorem get?_leaves_of_not_mem (before : Files) (other : place ∉ e.files.map NewFile.path) :
    (e.leaves before).contents.get? place = before.contents.get? place :=
  get?_foldl_of_not_mem _ other

/-- Of files at different places, each holds what was written. -/
theorem get?_leaves_of_mem (before : Files) (nodup : (e.files.map NewFile.path).Nodup) {n : NewFile}
    (member : n ∈ e.files) : (e.leaves before).contents.get? n.path = some n.content :=
  get?_foldl_of_mem _ nodup member

theorem directories_leaves (before : Files) :
    (e.leaves before).directories = e.directories ++ before.directories :=
  directories_foldl _

/-- A directory that was there still is. -/
theorem hasDirectory_leaves {before : Files} (present : before.hasDirectory place = true) :
    (e.leaves before).hasDirectory place = true := by
  simp only [Files.hasDirectory, Bool.or_eq_true, List.any_eq_true, List.contains_iff_mem]
    at present ⊢
  rcases present with (fixed | listed) | ⟨k, key, inside⟩
  · exact .inl (.inl fixed)
  · refine .inl (.inr ?_)
    rw [directories_leaves]
    exact List.mem_append_right _ listed
  · exact .inr ⟨k, mem_keys_foldl key, inside⟩

/-- A path that could be followed still can be. -/
theorem passable_leaves {before : Files} {path : String} (passable : before.passable path = true) :
    (e.leaves before).passable path = true := by
  rw [Files.passable, List.all_eq_true] at passable ⊢
  exact fun place departure => hasDirectory_leaves (passable place departure)

end Exit

end Quorum
