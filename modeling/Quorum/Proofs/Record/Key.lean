import Mathlib.Data.List.Basic
import Quorum.Record.Key

/-!
# Reading record keys

A key starts with the name of its kind, and no name of a kind starts another one. So a key belongs
to one kind and one owner, whatever characters the owner is written with. Reading is stricter than
writing: an owner is read of word characters, dots and hyphens only, and one line break at the end
of the key is passed over.

## Main definitions

* `RecordKey.head` — what the keys of a kind start with
* `RecordKey.IsName` — the owners of the grammar of keys

## Main results

* `RecordKey.write_eq_write_iff` — a key belongs to one kind and one owner
* `RecordKey.read?_eq_some_iff` — the keys that are read as those of a kind and an owner
* `RecordKey.read?_by_grammar` — what is read of every text, and where this is not the grammar
-/

namespace Quorum

namespace RecordKey

variable {kind kind' : RecordKind} {owner owner' : String} {key rest : List Char}

/-- What the keys of a kind start with. -/
def head (kind : RecordKind) : List Char := (kind.name ++ "_").toList

theorem toList_write (kind : RecordKind) (owner : String) :
    (write kind owner).toList = head kind ++ owner.toList := by
  rw [write, String.toList_append, head]

/-- The keys of one kind do not start like those of another. -/
theorem eq_of_head_prefix_head (starts : head kind <+: head kind') : kind = kind' := by
  cases kind <;> cases kind' <;> first | rfl | exact absurd starts (by decide +kernel)

theorem eq_of_head_prefix (first : head kind <+: key) (second : head kind' <+: key) :
    kind = kind' := by
  rcases List.prefix_or_prefix_of_prefix first second with starts | starts
  · exact eq_of_head_prefix_head starts
  · exact (eq_of_head_prefix_head starts).symm

/-- A key belongs to one kind and one owner. -/
theorem write_eq_write_iff :
    write kind owner = write kind' owner' ↔ kind = kind' ∧ owner = owner' := by
  constructor
  · intro same
    have chars := congrArg String.toList same
    rw [toList_write, toList_write] at chars
    obtain rfl := eq_of_head_prefix ⟨_, rfl⟩ ⟨_, chars.symm⟩
    exact ⟨rfl, String.toList_inj.mp (List.append_cancel_left chars)⟩
  · rintro ⟨rfl, rfl⟩
    rfl

/-! ### Owners that are read back -/

theorem not_isOwnerChar_lineBreak : isOwnerChar '\n' = false := by decide +kernel

/-- No owner that is read back ends with a line break. -/
theorem not_isOwner_lineBreak : isOwner (rest ++ ['\n']) = false := by
  rw [isOwner, List.all_append, List.all_cons, not_isOwnerChar_lineBreak, Bool.false_and,
    Bool.and_false, Bool.and_false]

/-- What is an owner without its line break is one itself, or has the line break added. -/
theorem dropLineBreak_eq_iff (isOwner : isOwner rest = true) :
    dropLineBreak key = rest ↔ key = rest ∨ key = rest ++ ['\n'] := by
  unfold dropLineBreak
  split
  · next last =>
    obtain ⟨front, rfl⟩ := List.getLast?_eq_some_iff.mp last
    have other : front ++ ['\n'] ≠ rest := by
      rintro rfl
      rw [not_isOwner_lineBreak] at isOwner
      cases isOwner
    rw [List.dropLast_concat, List.append_left_inj]
    exact ⟨.inr, fun either => either.resolve_left other⟩
  · next last =>
    refine ⟨.inl, fun either => either.resolve_right ?_⟩
    rintro rfl
    exact last List.getLast?_concat

/-- The owner of a key is read off behind the name of the kind. -/
theorem owner?_eq_some_iff : owner? kind key = some rest ↔
    isOwner rest = true ∧ (key = head kind ++ rest ∨ key = head kind ++ rest ++ ['\n']) := by
  have starts : key.take (head kind).length = head kind ↔ ∃ tail, key = head kind ++ tail := by
    rw [eq_comm, ← List.prefix_iff_eq_take]
    exact ⟨fun ⟨tail, same⟩ => ⟨tail, same.symm⟩, fun ⟨tail, same⟩ => ⟨tail, same.symm⟩⟩
  change (if key.take (head kind).length = head kind then
    if isOwner (dropLineBreak (key.drop (head kind).length)) then
      some (dropLineBreak (key.drop (head kind).length)) else none else none) = some rest ↔ _
  constructor
  · intro found
    rw [Option.ite_none_right_eq_some, Option.ite_none_right_eq_some, starts] at found
    obtain ⟨⟨tail, rfl⟩, isOwner, same⟩ := found
    rw [List.drop_left] at isOwner same
    obtain rfl := Option.some.inj same
    refine ⟨isOwner, ?_⟩
    rw [List.append_assoc, List.append_right_inj, List.append_right_inj]
    exact (dropLineBreak_eq_iff isOwner).mp rfl
  · rintro ⟨isOwner, either⟩
    rw [List.append_assoc] at either
    obtain ⟨tail, rfl⟩ : ∃ tail, key = head kind ++ tail :=
      either.elim (fun same => ⟨_, same⟩) fun same => ⟨_, same⟩
    rw [List.append_right_inj, List.append_right_inj] at either
    rw [if_pos (starts.mpr ⟨tail, rfl⟩), List.drop_left, (dropLineBreak_eq_iff isOwner).mpr either,
      if_pos isOwner]

theorem head_prefix_of_owner? (found : owner? kind key = some rest) : head kind <+: key := by
  obtain ⟨-, rfl | rfl⟩ := owner?_eq_some_iff.mp found
  · exact List.prefix_append _ _
  · rw [List.append_assoc]
    exact List.prefix_append _ _

private theorem owner?_of_read? {key : String} (read : read? key = some (kind, owner)) :
    owner? kind key.toList = some owner.toList := by
  obtain ⟨kind', -, mapped⟩ := List.exists_of_findSome?_eq_some read
  obtain ⟨rest, found, same⟩ := Option.map_eq_some_iff.mp mapped
  obtain ⟨rfl, rfl⟩ := Prod.mk.inj same
  rw [found, String.toList_ofList]

private theorem read?_of_owner? {key : String}
    (found : owner? kind key.toList = some owner.toList) : read? key = some (kind, owner) := by
  cases read : read? key with
  | none =>
    have nothing := List.findSome?_eq_none_iff.mp read kind (by cases kind <;> decide)
    rw [found] at nothing
    cases nothing
  | some entry =>
    obtain ⟨kind', owner'⟩ := entry
    -- Whatever kind is found first is the only one that the key starts with.
    have found' := owner?_of_read? read
    obtain rfl := eq_of_head_prefix (head_prefix_of_owner? found) (head_prefix_of_owner? found')
    rw [found, Option.some.injEq, String.toList_inj] at found'
    rw [found']

/-- A key is read as that of a kind and an owner exactly if the owner consists of word characters,
dots and hyphens and the key is theirs, or theirs with a line break behind the owner. -/
theorem read?_eq_some_iff {key : String} : read? key = some (kind, owner) ↔
    isOwner owner.toList = true ∧
      (key = write kind owner ∨ key = write kind (owner ++ "\n")) := by
  have chars : owner? kind key.toList = some owner.toList ↔ isOwner owner.toList = true ∧
      (key = write kind owner ∨ key = write kind (owner ++ "\n")) := by
    rw [owner?_eq_some_iff, ← String.toList_inj, ← String.toList_inj, toList_write, toList_write,
      String.toList_append, List.append_assoc]
    rfl
  rw [← chars]
  exact ⟨owner?_of_read?, read?_of_owner?⟩

/-! ### The grammar of keys -/

/-- An owner of the grammar: a name of word characters, dots and hyphens. -/
def IsName (owner : String) : Prop :=
  owner ≠ "" ∧ ∀ c ∈ owner.toList, isWordChar c = true ∨ c = '.' ∨ c = '-'

theorem isOwner_iff_isName : isOwner owner.toList = true ↔ IsName owner := by
  have nonempty : (!owner.toList.isEmpty) = true ↔ owner ≠ "" := by
    simp only [Bool.not_eq_true', Bool.eq_false_iff, Ne, List.isEmpty_iff, String.toList_eq_nil_iff]
  rw [isOwner, Bool.and_eq_true, nonempty, List.all_eq_true, IsName]
  simp only [isOwnerChar, Bool.or_eq_true, beq_iff_eq, or_assoc]

/-- A line break behind a key makes another text of it. -/
theorem write_append_lineBreak_ne : write kind owner ++ "\n" ≠ write kind owner := by
  intro same
  have lengths := congrArg String.length same
  rw [String.length_append] at lengths
  exact absurd lengths (by simp)

theorem read?_eq_some_iff_isName {key : String} : read? key = some (kind, owner) ↔
    IsName owner ∧ (write kind owner = key ∨ write kind owner ++ "\n" = key) := by
  have behind : write kind (owner ++ "\n") = write kind owner ++ "\n" := String.append_assoc.symm
  rw [read?_eq_some_iff, isOwner_iff_isName, behind, eq_comm (a := key), eq_comm (a := key)]

/-- Of every text is read what the grammar gives for it, or for it without one line break at its
end, and nothing is read of any other text. So reading keeps to the grammar at every text but the
keys of the grammar with a line break behind them: there it finds a kind and an owner, and the key
of these is another text. -/
theorem read?_by_grammar (key : String) :
    (∀ kind owner, read? key = some (kind, owner) ↔
      IsName owner ∧ (write kind owner = key ∨ write kind owner ++ "\n" = key)) ∧
    (read? key = none ↔ ¬∃ kind owner,
      IsName owner ∧ (write kind owner = key ∨ write kind owner ++ "\n" = key)) ∧
    ((∀ kind owner, read? key = some (kind, owner) ↔ IsName owner ∧ write kind owner = key) ↔
      ¬∃ kind owner, IsName owner ∧ write kind owner ++ "\n" = key) := by
  refine ⟨fun _ _ => read?_eq_some_iff_isName, ?_, ?_⟩
  · rw [Option.eq_none_iff_forall_ne_some, Prod.forall]
    simp only [Ne, read?_eq_some_iff_isName, not_exists]
  · constructor
    · rintro grammar ⟨kind, owner, name, rfl⟩
      have read : read? (write kind owner ++ "\n") = some (kind, owner) :=
        read?_eq_some_iff_isName.mpr ⟨name, .inr rfl⟩
      exact write_append_lineBreak_ne ((grammar kind owner).mp read).2.symm
    · intro unbroken kind owner
      rw [read?_eq_some_iff_isName]
      refine and_congr_right fun name => or_iff_left fun broken => ?_
      exact unbroken ⟨kind, owner, name, broken⟩

/-- A line break behind a key is passed over, so the key of what is read is not the one read. -/
theorem read?_of_lineBreak :
    read? "SEALED_RESULT_a\n" = some (.sealedResult, "a") ∧
      write .sealedResult "a" ≠ "SEALED_RESULT_a\n" := by
  decide +kernel

end RecordKey

end Quorum
