import Quorum.Proofs.Json.Layout
import Quorum.Proofs.Json.Limits
import Quorum.Proofs.Outcome
import Quorum.Proofs.Shape

/-!
# Readers that take back what is written

A written form and its reader belong together on the values that fit: what is written for such a
value is read as the value, and the reader lets no other value through, however loosely the document
is written. Integers fit if they have no more characters than the reader of documents takes. Fields
that belong together make up records that do.

## Main definitions

* `Shape.Faithful` — a written form and its reader belong together
* `Shape.written` — the bytes that are written for a value
* `Shape.RoundTrips` — documents are read back, and what was read is written in one form

## Main results

* `Shape.Faithful.document_written`, `Shape.Faithful.document_indented` — a value that fits is read
  back from either layout
* `Shape.Faithful.fits_of_document` — every value that is read fits
* `Shape.Faithful.roundTrips` — documents of records round-trip
-/

namespace Quorum

namespace Lenient

/-- An integer that is read from a text has no more characters than the reader of documents
takes. -/
theorem length_intText_le {s : List Char} {n : ℤ} (read : int s = .ok n) :
    (Json.intText n).length ≤ 4300 := by
  simp only [int] at read
  split at read
  · cases read
  · next ds _ =>
    split at read
    · cases read
    · next valid =>
      split at read
      · cases read
      · next short =>
        rw [Bool.or_eq_true, not_or, Bool.not_eq_true', Bool.not_eq_false, List.all_eq_true,
          List.isEmpty_iff] at valid
        cases read
        have length := Json.length_intText_le (sign (trim s)).1
          (List.length_pos_of_ne_nil valid.1) (Json.digitsValue_lt valid.2)
        exact length.trans (not_lt.mp short)

end Lenient

namespace Checked

variable {α β : Type}

/-- Two values are read if each of them is. -/
theorem and_eq_ok {a : Checked α} {b : Checked β} {x : α} {y : β} :
    a.and b = .ok (x, y) ↔ a = .ok x ∧ b = .ok y := by
  cases a <;> cases b <;> simp [Checked.and]

end Checked

namespace Shape

variable {α : Type} {write : α → Json} {read : Json → Checked α} {Fits : α → Prop} {depth : ℕ}

/-- What is read as a record is read from its fields. -/
theorem eq_ok_of_record {v : Json} {x : α} (isOk : record read v = .ok x) : read v = .ok x := by
  cases v with
  | obj fields => exact isOk
  | _ => cases isOk

/-- A written form and its reader belong together on the values that fit: those are read back, their
written form is at most `depth` deep, and what is read from a bounded document fits. -/
structure Faithful (write : α → Json) (read : Json → Checked α) (Fits : α → Prop)
    (depth : ℕ) : Prop where
  /-- What is written for a value that fits is read as the value. -/
  read_write {x : α} (fits : Fits x) : read (write x) = .ok x
  /-- What is written for a value that fits can be read from a document. -/
  legible {x : α} (fits : Fits x) (room : ℕ) : (write x).Legible (room + depth)
  /-- Whatever is read fits. -/
  fits {v : Json} {x : α} (bounded : v.Bounded) (isOk : read v = .ok x) : Fits x

/-- The bytes that are written for a value. -/
def written (write : α → Json) (x : α) : Bytes := Utf8.encode (write x).compact

/-- The documents of a record: a value that fits is read back from what is written for it, and for
every value that was read, what is written for it is read as the value and written again in the same
bytes. -/
structure RoundTrips (write : α → Json) (read : Json → Checked α) (Fits : α → Prop) : Prop where
  /-- A value that fits is read back. -/
  reads_back (x : α) (fits : Fits x) : document read (written write x) = .ok x
  /-- What was read from any document is read back. -/
  stable (data : Bytes) (x : α) (isOk : document read data = .ok x) :
    document read (written write x) = .ok x ∧
      (document read (written write x)).map (written write) = .ok (written write x)

namespace Faithful

variable (faithful : Faithful write read Fits depth) {x : α}
include faithful

theorem legible_of_le (shallow : depth ≤ Json.maxDepth) (fits : Fits x) :
    (write x).Legible Json.maxDepth :=
  Nat.sub_add_cancel shallow ▸ faithful.legible fits (Json.maxDepth - depth)

/-- A value that fits is read back from what is written for it. -/
theorem document_written (shallow : depth ≤ Json.maxDepth) (fits : Fits x) :
    document read (written write x) = .ok x := by
  rw [written, document_encode (faithful.legible_of_le shallow fits), faithful.read_write fits]

/-- A value that fits is read back from the layout with one item a line. -/
theorem document_indented (shallow : depth ≤ Json.maxDepth) (fits : Fits x) :
    document read (Utf8.encode (write x).indented) = .ok x := by
  rw [document, Json.ofBytes?_encode_indented (faithful.legible_of_le shallow fits)]
  exact faithful.read_write fits

/-- Every value that is read from a document fits. -/
theorem fits_of_document {data : Bytes} (isOk : document read data = .ok x) : Fits x := by
  rw [document] at isOk
  split at isOk
  · cases isOk
  · next parsed => exact faithful.fits (Json.bounded_of_ofBytes? parsed) isOk

/-- Documents of records round-trip. -/
theorem roundTrips (shallow : depth ≤ Json.maxDepth) : RoundTrips write read Fits where
  reads_back _ fits := faithful.document_written shallow fits
  stable _ x isOk := by
    have again := faithful.document_written shallow (faithful.fits_of_document isOk)
    exact ⟨again, by rw [again]; rfl⟩

/-! ### Fields -/

/-- A field that was written is read back. -/
theorem required_eq_ok {v : Json} {name : String} (found : v.field? name = some (write x))
    (fits : Fits x) : required name read v = .ok x :=
  Shape.required_eq_ok found (faithful.read_write fits)

/-- What is read from a field fits. -/
theorem fits_of_required {v : Json} {name : String} (bounded : v.Bounded)
    (isOk : required name read v = .ok x) : Fits x := by
  rw [required] at isOk
  split at isOk
  · cases isOk
  · next w found =>
    refine faithful.fits (bounded.field? found) ?_
    cases value : read w with
    | error e =>
      rw [value] at isOk
      cases isOk
    | ok y =>
      rw [value] at isOk
      exact isOk

end Faithful

theorem length_intText_of_intOfFloat {x : Binary64} {n : ℤ} (isOk : intOfFloat x = .ok n) :
    (Json.intText n).length ≤ 4300 := by
  rw [intOfFloat] at isOk
  split at isOk
  · cases isOk
  · split at isOk
    · cases isOk
    · split at isOk
      · next small =>
        cases isOk
        have power : n.natAbs < 10 ^ 19 := small.trans (by decide)
        exact (Json.length_intText_le_of_natAbs (by decide) power).trans (by decide)
      · cases isOk

/-- Integers of at most 4300 characters belong to the reader of integers. -/
theorem faithful_int : Faithful Json.int int (fun n => (Json.intText n).length ≤ 4300) 0 where
  read_write _ := rfl
  legible short _ := .int short
  fits {v n} bounded isOk := by
    cases bounded with
    | int short =>
      cases isOk
      exact short
    | bool b =>
      cases isOk
      cases b <;> decide
    | float x => exact length_intText_of_intOfFloat isOk
    | str s =>
      rw [int, intOfText] at isOk
      split at isOk
      · next text =>
        cases isOk
        exact Lenient.length_intText_le text
      · cases isOk
    | null | arr | obj => cases isOk

/-- Integers from a bound on belong to the reader with the bound. -/
theorem faithful_intFrom (bound : ℤ) :
    Faithful Json.int (intFrom bound)
      (fun n => bound ≤ n ∧ (Json.intText n).length ≤ 4300) 0 where
  read_write fits := intFrom_int fits.1
  legible fits _ := .int fits.2
  fits {v n} bounded isOk := by
    rw [intFrom] at isOk
    cases value : int v with
    | error e =>
      rw [value] at isOk
      cases isOk
    | ok m =>
      rw [value, Outcome.bind_ok] at isOk
      split at isOk
      · cases isOk
      · next above =>
        cases isOk
        exact ⟨not_lt.mp above, faithful_int.fits bounded value⟩

theorem faithful_text : Faithful Json.str text (fun _ => True) 0 where
  read_write _ := rfl
  legible _ _ := .str _
  fits _ _ := trivial

theorem faithful_bytes : Faithful (fun b => .str (Base64.encode b)) bytes (fun _ => True) 0 where
  read_write _ := bytes_encode _
  legible _ _ := .str _
  fits _ _ := trivial

end Shape

end Quorum
