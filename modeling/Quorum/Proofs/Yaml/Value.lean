import Quorum.Proofs.Yaml.Outline
import Quorum.Yaml.Value

/-!
# The values of written outlines

A mapping with distinct texts as keys is filled entry by entry without replacing anything, so its
entries are those that were written, in their order.

## Main definitions

* `Yaml.Outline.Gives` — outlines that stand for a value

## Main results

* `Yaml.Outline.gives_scalar`, `Yaml.Outline.gives_mapping` — the values of outlines
* `Yaml.Outline.load_text` — a written outline is loaded as its value
-/

namespace Quorum

namespace Yaml

section Filling

/-! ### Filling mappings -/

/-- The entries with texts as keys. -/
def textEntries {α : Type} (datum : α → Datum) (es : List (String × α)) : List (Datum × Datum) :=
  es.map fun e => (.text e.1, datum e.2)

variable {α : Type} {datum : α → Datum}

/-- A text that is no key yet is put behind the others. -/
theorem put_textEntries {k : String} {v : Datum} {es : List (String × α)}
    (fresh : k ∉ es.map Prod.fst) :
    Datum.put (.text k) v (textEntries datum es) = textEntries datum es ++ [(.text k, v)] := by
  induction es with
  | nil => rfl
  | cons e es ih =>
    simp only [List.map_cons, List.mem_cons, not_or] at fresh
    have other : Datum.sameKey (.text e.1) (.text k) = false := by
      simpa [Datum.sameKey] using Ne.symm fresh.1
    change (if Datum.sameKey (.text e.1) (.text k) then _ else _) = _
    rw [other]
    exact congrArg (List.cons _) (ih fresh.2)

/-- Distinct texts as keys replace nothing. -/
theorem fill_textEntries {es : List (String × α)} (distinct : (es.map Prod.fst).Nodup) :
    fill (textEntries datum es) = textEntries datum es := by
  -- What has been put before stays in front.
  suffices general : ∀ before : List (String × α), ((before ++ es).map Prod.fst).Nodup →
      (textEntries datum es).foldl (fun m e => Datum.put e.1 e.2 m) (textEntries datum before) =
        textEntries datum (before ++ es) from general [] distinct
  clear distinct
  induction es with
  | nil => intro before _; simp [textEntries]
  | cons e es ih =>
    intro before distinct
    have shape : before ++ e :: es = (before ++ [e]) ++ es := by simp
    have fresh : e.1 ∉ before.map Prod.fst := by
      rw [List.map_append, List.nodup_append] at distinct
      exact fun member => distinct.2.2 e.1 member e.1 (by simp) rfl
    have step : Datum.put (.text e.1) (datum e.2) (textEntries datum before) =
        textEntries datum (before ++ [e]) := by
      rw [put_textEntries fresh]
      simp [textEntries]
    rw [shape] at distinct ⊢
    rw [← ih (before ++ [e]) distinct, ← step]
    rfl

end Filling

namespace Outline

/-- The outline stands for a value, on whatever level it is. -/
def Gives (v : Outline) (d : Datum) : Prop := ∀ level, v.node.build level = ⟨d, []⟩

theorem gives_scalar {tag : Tag} {s : String} {d : Datum} (value : tag.datum s = .ok d) :
    (scalar tag s).Gives d := by
  intro level
  simp only [node, Node.build, Node.buildScalar, value]

/-- The entries of a mapping whose values stand for the given ones. -/
theorem buildEntries_nodes {es : List (String × Outline × Datum)}
    (values : ∀ e ∈ es, e.2.1.Gives e.2.2) (level : ℕ) :
    Node.buildEntries level (nodes (es.map fun e => (e.1, e.2.1))) =
      ⟨[], textEntries Prod.snd es, [], []⟩ := by
  induction es with
  | nil => simp [nodes, Node.buildEntries, textEntries]
  | cons e es ih =>
    obtain ⟨first, others⟩ := List.forall_mem_cons.mp values
    have key : Node.build level (.scalar .str e.1) = ⟨.text e.1, []⟩ := by
      simp [Node.build, Node.buildScalar, Tag.datum]
    simp only [List.map_cons, nodes, Node.buildEntries, ih others, key, first level]
    simp [textEntries, keyFailure, isKey]

/-- The value of a mapping with distinct keys. -/
theorem gives_mapping (es : List (String × Outline × Datum))
    (values : ∀ e ∈ es, e.2.1.Gives e.2.2) (distinct : (es.map Prod.fst).Nodup) :
    (mapping (es.map fun e => (e.1, e.2.1))).Gives (.mapping (textEntries Prod.snd es)) := by
  intro level
  simp only [node, Node.build, buildEntries_nodes values, BuiltEntries.entries,
    BuiltEntries.allFailures, List.nil_append, fill_textEntries distinct]

/-- A written mapping is loaded as its value. -/
theorem load_text {es : List (String × Outline)} {d : Datum} (nonempty : es ≠ [])
    (fits : EntriesFit 0 es) (keys : EntryKeysFit es) (gives : (mapping es).Gives d) :
    load (mapping es).text = .ok d := by
  obtain ⟨read, -⟩ := ofText_text nonempty fits keys
  rw [load, read]
  simp only [bind, Except.bind, gives 0, firstFailure?]

end Outline

end Yaml

end Quorum
