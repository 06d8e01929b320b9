import Quorum.Proofs.Json.Parser

/-!
# Documents laid out in lines are read back

Line breaks, indentation and the space behind a colon stand between tokens only, so the text with
one item a line spells the same tokens as the text without any space.

## Main results

* `Json.spells_layOut` — tokens laid out in lines are spelled
* `Json.ofBytes?_encode_indented` — a document is read back from its text in lines
-/

namespace Quorum

namespace Json

theorem isSpace_newLine (depth : ℕ) : ∀ c ∈ newLine depth, isSpace c = true := by
  intro c member
  rcases List.mem_cons.mp member with rfl | space
  · rfl
  · rw [List.eq_of_mem_replicate space]
    rfl

/-- Spaces in front change nothing. -/
theorem Spells.blank {spaces s : List Char} {ts : List Token} (spells : Spells s ts)
    (blank : ∀ c ∈ spaces, isSpace c = true) : Spells (spaces ++ s) ts := by
  cases spells with
  | nil blank' => exact .nil (List.forall_mem_append.mpr ⟨blank, blank'⟩)
  | cons blank' legible ends others =>
    rw [← List.append_assoc, ← List.append_assoc]
    exact .cons (List.forall_mem_append.mpr ⟨blank, blank'⟩) legible ends others

/-- Behind a scalar stands a bracket, a separator or a line break. -/
theorem ends_layOut {ts : List Token} (bracket : ∀ t ∈ ts.head?, t.isScalar = false) (depth : ℕ) :
    Ends (layOut depth false ts) := by
  intro c head
  cases ts with
  | nil => cases head
  | cons t ts =>
    have notScalar := bracket t rfl
    cases t with
    | null | bool b | int n | float x | str s => cases notScalar
    | _ =>
      cases head
      rfl

/-- Tokens laid out in lines are spelled. -/
theorem spells_layOut {ts : List Token} (legible : ∀ t ∈ ts, t.Legible)
    (separated : Separated ts) (depth : ℕ) (opened : Bool) :
    Spells (layOut depth opened ts) ts := by
  induction ts generalizing depth opened with
  | nil => exact .nil (List.forall_mem_nil _)
  | cons t ts ih =>
    obtain ⟨first, others⟩ := List.forall_mem_cons.mp legible
    obtain ⟨apart, separated⟩ := List.isChain_cons.mp separated
    have noSpaces : ∀ c ∈ [], isSpace c = true := List.forall_mem_nil _
    have broken (break_ : Bool) (depth : ℕ) :
        ∀ c ∈ (if break_ then newLine depth else []), isSpace c = true := by
      cases break_
      · exact noSpaces
      · exact isSpace_newLine depth
    have rest (depth : ℕ) (opened : Bool) := ih others separated depth opened
    -- Behind a scalar the next token is no scalar; brackets and separators need nothing.
    have ends (scalar : t.isScalar = true) : Ends (layOut depth false ts) :=
      ends_layOut
        (fun u head => Bool.eq_false_iff.mpr fun both => apart u head ⟨scalar, both⟩) depth
    have bracket {P : Prop} (notScalar : t.isScalar = false) : t.isScalar = true → P :=
      fun scalar => by cases notScalar.symm.trans scalar
    cases t with
    | openObj | openArr =>
      exact .cons (broken opened depth) first (bracket rfl) (rest (depth + 1) true)
    | closeObj | closeArr =>
      have before : ∀ c ∈ (if opened then [] else newLine (depth - 1)), isSpace c = true := by
        cases opened
        · exact isSpace_newLine _
        · exact noSpaces
      exact .cons before first (bracket rfl) (rest (depth - 1) false)
    | comma =>
      have line := (rest depth false).blank (isSpace_newLine depth)
      exact .cons noSpaces first (bracket rfl) line
    | colon =>
      have isBlank : ∀ c ∈ [' '], isSpace c = true := List.forall_mem_singleton.mpr rfl
      have space := (rest depth false).blank isBlank
      exact .cons noSpaces first (bracket rfl) space
    | null | bool b | int n | float x | str s =>
      exact .cons (broken opened depth) first ends (rest depth false)

/-- A document is read back from its text with one item a line. -/
theorem ofBytes?_encode_indented {v : Json} (legible : v.Legible maxDepth) :
    ofBytes? (Utf8.encode v.indented) = some v := by
  have spells := spells_layOut (legible_tokens v legible) (separated_tokens v) 0 false
  rw [ofBytes?, Utf8.decode?_encode, indented, String.toList_ofList]
  exact spells.parse? legible

end Json

end Quorum
