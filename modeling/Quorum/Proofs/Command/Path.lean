import Mathlib.Data.List.Basic
import Quorum.Command.Files

/-!
# The places of the files in a directory

A path is taken apart into its parts and spelled from them again. The files of a directory lie at
the place of the directory, each under its own name, whatever way the path takes there. So files of
different names lie at different places, and one of them is found exactly if the directory is.

## Main definitions

* `Path.IsPart` — parts that are kept when a path is taken apart
* `Path.IsName` — names of files in a directory

## Main results

* `Path.parts_spelled` — the parts of a path are those it is spelled with
* `Path.target_inside` — the place of a file in a directory
* `Path.target_inside_inj` — files of different names lie at different places
* `Files.passable_inside` — a file is found behind the same directories as its directory
-/

namespace Quorum

theorem not_mem_of_mem_splitOn {α : Type} [BEq α] [LawfulBEq α] {a : α} {xs l : List α}
    (member : l ∈ xs.splitOn a) : a ∉ l := by
  induction xs generalizing l with
  | nil =>
    rw [List.splitOn_nil, List.mem_singleton] at member
    subst member
    exact List.not_mem_nil
  | cons x xs ih =>
    rw [List.splitOn_cons_eq_if_modifyHead] at member
    split at member
    · rcases List.mem_cons.mp member with rfl | later
      · exact List.not_mem_nil
      · exact ih later
    · next different =>
      have ne : a ≠ x := fun same => different (beq_iff_eq.mpr same.symm)
      cases split : xs.splitOn a with
      | nil => exact absurd split (List.splitOn_ne_nil a xs)
      | cons first others =>
        rw [split, List.modifyHead_cons] at member
        rw [split] at ih
        rcases List.mem_cons.mp member with rfl | later
        · exact List.not_mem_cons_of_ne_of_not_mem ne (ih List.mem_cons_self)
        · exact ih (List.mem_cons_of_mem first later)

namespace Path

/-- Parts that are kept when a path is taken apart. -/
structure IsPart (p : String) : Prop where
  ne_empty : p ≠ ""
  ne_dot : p ≠ "."
  not_mem : '/' ∉ p.toList

/-- Names of files in a directory: parts that do not lead out of it. -/
structure IsName (name : String) : Prop extends IsPart name where
  ne_up : name ≠ ".."

theorem isPart_of_mem_parts {s p : String} (member : p ∈ parts s) : IsPart p := by
  rw [parts, List.mem_filter, Bool.and_eq_true, bne_iff_ne, bne_iff_ne] at member
  obtain ⟨member, ne_empty, ne_dot⟩ := member
  obtain ⟨l, split, rfl⟩ := List.mem_map.mp member
  exact ⟨ne_empty, ne_dot, String.toList_ofList ▸ not_mem_of_mem_splitOn split⟩

variable {absolute : Bool} {ps place : List String} {p name : String}

/-- A path whose last part is a name: the parts in front of it, each with its slash, and the
name. -/
theorem toList_spelled_concat (name_ne : name ≠ "") :
    (spelled absolute (ps ++ [name])).toList = (if absolute then ['/'] else []) ++
      (ps.flatMap (fun p => p.toList ++ ['/']) ++ name.toList) := by
  have body : (String.intercalate "/" (ps ++ [name])).toList =
      ps.flatMap (fun p => p.toList ++ ['/']) ++ name.toList := by
    rw [String.toList_intercalate]
    induction ps with
    | nil => exact List.intercalate_singleton
    | cons p ps ih =>
      obtain ⟨q, qs, split⟩ := List.exists_cons_of_ne_nil
        (List.append_ne_nil_of_right_ne_nil ps (List.cons_ne_nil name []))
      rw [split, List.map_cons] at ih
      rw [List.cons_append, split, List.map_cons, List.map_cons, List.intercalate_cons_cons, ih,
        List.flatMap_cons, List.append_assoc]
      simp
  have body_ne : String.intercalate "/" (ps ++ [name]) ≠ "" := by
    intro empty
    rw [empty] at body
    have name_empty : name.toList = [] := (List.append_eq_nil_iff.mp body.symm).2
    exact name_ne (String.toList_eq_nil_iff.mp name_empty)
  cases absolute with
  | false => rw [spelled, if_neg Bool.false_ne_true, if_neg (by simpa using body_ne), body]; rfl
  | true => rw [spelled, if_pos rfl, String.toList_append, body]; rfl

/-- The pieces of parts that each have their slash, and of what follows. -/
theorem splitOn_flatMap (slashless : ∀ p ∈ ps, '/' ∉ p.toList) (s : List Char) :
    (ps.flatMap (fun p => p.toList ++ ['/']) ++ s).splitOn '/' =
      ps.map String.toList ++ s.splitOn '/' := by
  induction ps with
  | nil => rfl
  | cons p ps ih =>
    obtain ⟨first, others⟩ := List.forall_mem_cons.mp slashless
    rw [List.flatMap_cons, List.append_assoc, List.append_assoc, List.singleton_append,
      List.splitOn_append_cons_self_of_not_mem first, ih others]
    rfl

/-- The parts of a path are those it is spelled with. -/
theorem parts_spelled (arePart : ∀ p ∈ ps, IsPart p) : parts (spelled absolute ps) = ps := by
  rcases List.eq_nil_or_concat' ps with rfl | ⟨ps, name, rfl⟩
  · cases absolute <;> decide
  have slashless : ∀ p ∈ ps ++ [name], '/' ∉ p.toList := fun p member =>
    (arePart p member).not_mem
  obtain ⟨before, last⟩ := List.forall_mem_append.mp slashless
  have kept : (ps ++ [name]).filter (fun p => p != "" && p != ".") = ps ++ [name] := by
    refine List.filter_eq_self.mpr fun p member => ?_
    simp [(arePart p member).ne_empty, (arePart p member).ne_dot]
  have pieces : ((ps.flatMap (fun p => p.toList ++ ['/']) ++ name.toList).splitOn '/').map
      String.ofList = ps ++ [name] := by
    rw [splitOn_flatMap before, List.splitOn_eq_singleton (last name List.mem_cons_self)]
    simp
  have name_ne : name ≠ "" := (arePart name (by simp)).ne_empty
  rw [parts, toList_spelled_concat name_ne]
  cases absolute with
  | false => rw [if_neg Bool.false_ne_true, List.nil_append, pieces, kept]
  | true =>
    -- The slash of the root splits off an empty piece.
    have root := List.splitOn_append_cons_self_of_not_mem (List.not_mem_nil (a := '/'))
      (ps.flatMap (fun p => p.toList ++ ['/']) ++ name.toList)
    rw [List.nil_append] at root
    rw [if_pos rfl, List.singleton_append, root, List.map_cons, pieces]
    exact kept

theorem isAbsolute_spelled (arePart : ∀ p ∈ ps, IsPart p) :
    isAbsolute (spelled absolute ps) = absolute := by
  rcases List.eq_nil_or_concat' ps with rfl | ⟨ps, name, rfl⟩
  · cases absolute <;> decide
  have name_ne : name ≠ "" := (arePart name (by simp)).ne_empty
  rw [isAbsolute, toList_spelled_concat name_ne]
  cases absolute with
  | true => rfl
  | false =>
    -- The first part has no slash, and is not empty.
    rw [if_neg Bool.false_ne_true, List.nil_append, beq_eq_false_iff_ne]
    obtain ⟨q, member, rest, start⟩ : ∃ q ∈ ps ++ [name], ∃ rest,
        ps.flatMap (fun p => p.toList ++ ['/']) ++ name.toList = q.toList ++ rest := by
      cases ps with
      | nil => exact ⟨name, List.mem_cons_self, [], (List.append_nil _).symm⟩
      | cons p ps => exact ⟨p, List.mem_cons_self, _, by
          rw [List.flatMap_cons, List.append_assoc, List.append_assoc]⟩
    obtain ⟨c, cs, chars⟩ := List.exists_cons_of_ne_nil fun empty =>
      (arePart q member).ne_empty (String.toList_eq_nil_iff.mp empty)
    rw [start, chars]
    intro head
    refine (arePart q member).not_mem (chars ▸ ?_)
    exact List.mem_cons.mpr (.inl (Option.some.inj head).symm)

/-- A name is a path of one part. -/
theorem parts_of_isPart (isPart : IsPart name) : parts name = [name] := by
  have alone : spelled false [name] = name := by
    have text : (spelled false ([] ++ [name])).toList = name.toList :=
      toList_spelled_concat isPart.ne_empty
    exact String.toList_inj.mp text
  rw [← alone, parts_spelled (List.forall_mem_singleton.mpr (alone.symm ▸ isPart)), alone]

section Inside

variable {directory : String} (isName : IsName name)
include isName

theorem parts_inside : parts (inside directory name) = parts directory ++ [name] := by
  rw [inside, parts_of_isPart isName.toIsPart]
  refine parts_spelled (List.forall_mem_append.mpr ⟨fun p => isPart_of_mem_parts, ?_⟩)
  exact List.forall_mem_singleton.mpr isName.toIsPart

theorem isAbsolute_inside : isAbsolute (inside directory name) = isAbsolute directory := by
  rw [inside, parts_of_isPart isName.toIsPart]
  refine isAbsolute_spelled (List.forall_mem_append.mpr ⟨fun p => isPart_of_mem_parts, ?_⟩)
  exact List.forall_mem_singleton.mpr isName.toIsPart

/-- A file in a directory lies at the place of the directory, under its name. -/
theorem target_inside : target (inside directory name) =
    spelled (isAbsolute directory)
      ((parts directory).foldl (next (isAbsolute directory)) [] ++ [name]) := by
  rw [target, parts_inside isName, isAbsolute_inside isName, List.foldl_append, List.foldl_cons,
    List.foldl_nil, next, if_pos (bne_iff_ne.mpr isName.ne_up)]

end Inside

/-- Files of different names in a directory lie at different places. -/
theorem target_inside_inj {directory name other : String} (isName : IsName name)
    (isName' : IsName other)
    (same : target (inside directory name) = target (inside directory other)) : name = other := by
  rw [target_inside isName, target_inside isName', ← String.toList_inj,
    toList_spelled_concat isName.ne_empty, toList_spelled_concat isName'.ne_empty,
    List.append_cancel_left_eq, List.append_cancel_left_eq, String.toList_inj] at same
  exact same

theorem departures_append (ps qs : List String) : departures absolute place (ps ++ qs) =
    departures absolute place ps ++ departures absolute (ps.foldl (next absolute) place) qs := by
  induction ps generalizing place with
  | nil => rfl
  | cons p ps ih =>
    rw [List.cons_append, departures, departures, ih]
    split <;> rfl

end Path

/-- A file in a directory is found behind the same directories as the directory. -/
theorem Files.passable_inside (f : Files) {directory name : String} (isName : Path.IsName name) :
    f.passable (Path.inside directory name) = f.passable directory := by
  rw [passable, passable, Path.parts_inside isName, Path.isAbsolute_inside isName,
    Path.departures_append, List.all_append]
  have last (place : List String) :
      Path.departures (Path.isAbsolute directory) place [name] = [] := by
    rw [Path.departures, Path.departures]
    exact if_neg (by simpa using isName.ne_up)
  rw [last, List.all_nil, Bool.and_true]

end Quorum
