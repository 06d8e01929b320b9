import Quorum.Proofs.Json.Parser
import Quorum.Proofs.Text.Base64
import Quorum.Shape

/-!
# Records are read back

The readers of field values give back what was written for a value, so a record whose fields are
read back is read back itself.

## Main results

* `Shape.bytes_encode`, `Shape.elements_map` — bytes and lists are read back
* `Shape.required_eq_ok` — a field that is there is read
* `Shape.document_encode` — a written document reaches the reader of its record
-/

namespace Quorum

namespace Shape

variable {α : Type} {read : Json → Checked α}

theorem bytes_encode (b : Bytes) : bytes (.str (Base64.encode b)) = .ok b := by
  rw [bytes, base64, Base64.decode_encode]

theorem intFrom_int {bound n : ℤ} (large : bound ≤ n) : intFrom bound (.int n) = .ok n :=
  if_neg (not_lt.mpr large)

/-- The elements of a list are read back if each of them is. -/
theorem elements_map {write : α → Json} {xs : List α} (each : ∀ x ∈ xs, read (write x) = .ok x)
    (i : ℕ) : elements read i (xs.map write) = .ok xs := by
  induction xs generalizing i with
  | nil => rfl
  | cons x xs ih =>
    obtain ⟨first, others⟩ := List.forall_mem_cons.mp each
    rw [List.map_cons, elements, first, ih others]
    rfl

/-- A field that is there is read. -/
theorem required_eq_ok {name : String} {v w : Json} {x : α} (found : v.field? name = some w)
    (isOk : read w = .ok x) : required name read v = .ok x := by
  rw [required, found]
  dsimp only
  rw [isOk]
  rfl

/-- A written document is read by the reader of its record. -/
theorem document_encode {v : Json} (legible : v.Legible Json.maxDepth) :
    document read (Utf8.encode v.compact) = read v := by
  rw [document, Json.ofBytes?_encode legible]

end Shape

end Quorum
