import Quorum.Proofs.Yaml.Outline

/-!
# Keys that are too long

Behind a key of more than 1024 characters the colon is out of place. Reading stops there, whatever
follows, and what has been read until then is no document: the key is a scalar where an entry was to
come, or where the value of an entry ends, and no mapping around it has its end. So an outline that
fits its lines is read back exactly if its keys can be read.

## Main definitions

* `Yaml.Layout.Stops` — reading stops after some tokens
* `Yaml.IsCutValue`, `Yaml.IsCut` — starts of values and entries in which reading stops

## Main results

* `Yaml.Outline.exists_cut` — a key that is too long makes the text malformed
-/

namespace Quorum

namespace Yaml

variable {column : ℕ} {explicit plain : Bool} {s t u : List Char} {ts us : List Token}

section Texts

/-! ### Texts in which reading stops -/

/-- Reading stops after some tokens. -/
def Layout.Stops (l : Layout) (ts : List Token) : Prop :=
  ∃ m : Layout, Relation.ReflTransGen Layout.Reads l m ∧ m.next = .error .malformed ∧ m.settled = ts

theorem Layout.Stops.of_reads {l m : Layout} (reads : Relation.ReflTransGen Layout.Reads l m)
    (stops : m.Stops ts) : l.Stops ts := by
  obtain ⟨m', reads', stops⟩ := stops
  exact ⟨m', reads.trans reads', stops⟩

/-- Tokens of entries at a column that break off: the first entry starts a mapping. -/
def BreaksOffAt (indent : ℤ) (column : ℕ) (ts : List Token) : Prop :=
  if indent < column then BreaksOff ts else FailsEntries ts

theorem BreaksOffAt.scalar (indent : ℤ) (column : ℕ) (plain : Bool) (s : String) :
    BreaksOffAt indent column [.scalar plain s] := by
  unfold BreaksOffAt
  split
  · exact .scalar plain s
  · exact .scalar plain s

theorem FailsEntries.breaksOffAt (fails : FailsEntries ts) (indent : ℤ) (column : ℕ) :
    BreaksOffAt indent column (Layout.opened indent column ++ ts) := by
  unfold BreaksOffAt Layout.opened
  by_cases first : indent < column
  · simpa only [if_pos first] using .mapping fails
  · simpa only [if_neg first, List.nil_append] using fails

/-- Starts of values in which reading stops. -/
structure IsCutValue (column : ℕ) (explicit : Bool) (t : List Char) : Prop where
  nonempty : t ≠ []
  ends : endsWord t = true
  isPrinted : ∀ c ∈ t, IsPrinted c
  stops : ∀ ⦃l : Layout⦄ ⦃r : List Char⦄ ⦃outer : List ℤ⦄ ⦃before : List Token⦄,
    l.Behind (t ++ r) explicit column outer before →
    (explicit = true → l.place.column = column + 1) → ∃ ts, l.Stops (before ++ ts) ∧ BreaksOff ts

/-- Starts of entries at a column in which reading stops. -/
structure IsCut (column : ℕ) (t : List Char) : Prop where
  nonempty : t ≠ []
  opens : Opens t
  isPrinted : ∀ c ∈ t, IsPrinted c
  stops : ∀ ⦃l : Layout⦄ ⦃r : List Char⦄ ⦃indent : ℤ⦄ ⦃outer : List ℤ⦄ ⦃before : List Token⦄,
    indent ≤ column → l.At (t ++ r) column indent outer before →
    ∃ ts, l.Stops (before ++ ts) ∧ BreaksOffAt indent column ts

/-- Entries right of a key are a mapping, which breaks off with them. -/
theorem IsCut.stops_nested (cut : IsCut (column + 2) t) {l : Layout} {r : List Char}
    {outer : List ℤ} {before : List Token}
    (stands : l.At (t ++ r) (column + 2 : ℕ) column outer before) :
    ∃ ts, l.Stops (before ++ ts) ∧ BreaksOff ts := by
  have right : (column : ℤ) < (column + 2 : ℕ) := by omega
  simpa only [BreaksOffAt, if_pos right] using cut.stops (Int.le_of_lt right) stands

namespace IsCutValue

/-- A mapping on the lines behind its key. -/
theorem nested (cut : IsCut (column + 2) t) :
    IsCutValue column false ('\n' :: (List.replicate (column + 2) ' ' ++ t)) where
  nonempty := List.cons_ne_nil _ _
  ends := rfl
  isPrinted := List.forall_mem_cons.mpr ⟨.inr (.inr rfl),
    List.forall_mem_append.mpr ⟨isPrinted_spaces _, cut.isPrinted⟩⟩
  stops l r outer before behind _ := by
    rw [List.cons_append, List.append_assoc] at behind
    exact cut.stops_nested (behind.nested (cut.opens.append cut.nonempty _))

/-- A mapping that starts behind a colon on a line of its own. -/
theorem nested_of_explicit (cut : IsCut (column + 2) t) : IsCutValue column true (' ' :: t) where
  nonempty := List.cons_ne_nil _ _
  ends := rfl
  isPrinted := List.forall_mem_cons.mpr ⟨.inr (.inl rfl), cut.isPrinted⟩
  stops _ _ _ _ behind place :=
    cut.stops_nested (behind.nested_of_explicit (cut.opens.append cut.nonempty _) (place rfl))

end IsCutValue

namespace IsCut

/-- A key that is too long, whatever its value is. -/
theorem longKey (written : ScalarText (column + 2) plain s t) (line : '\n' ∉ t)
    (long : 1024 < t.length) (nonempty : u ≠ []) (ends : endsWord u = true)
    (printed : ∀ c ∈ u, IsPrinted c) : IsCut column (t ++ ':' :: u) where
  nonempty := List.append_ne_nil_of_left_ne_nil written.nonempty _
  opens := written.opens _
  isPrinted := isPrinted_simple written printed
  stops l r indent outer before deep stands := by
    rw [List.append_assoc, List.cons_append] at stands
    obtain ⟨m, read, fails, tokens⟩ := stands.longKey deep written line long
      ((endsWord_append nonempty _).trans ends)
    exact ⟨_, ⟨m, .single read, fails, tokens⟩, .scalar indent column plain _⟩

/-- A key on the line of its value. -/
theorem simple (written : ScalarText (column + 2) plain s t) (line : '\n' ∉ t)
    (short : t.length ≤ 1024) (value : IsCutValue column false u) :
    IsCut column (t ++ ':' :: u) where
  nonempty := List.append_ne_nil_of_left_ne_nil written.nonempty _
  opens := written.opens _
  isPrinted := isPrinted_simple written value.isPrinted
  stops l r indent outer before deep stands := by
    rw [List.append_assoc, List.cons_append] at stands
    obtain ⟨m, reads, behind⟩ := stands.simpleKey deep written line short
      ((endsWord_append value.nonempty _).trans value.ends)
    obtain ⟨ts, stops, breaks⟩ := value.stops behind (by simp)
    rw [List.append_assoc, List.append_assoc] at stops
    exact ⟨_, .of_reads reads stops,
      (breaks.value (.scalar plain (String.ofList s))).breaksOffAt indent column⟩

/-- A key with a mark in front of it. -/
theorem marked (written : ScalarText (column + 2) plain s t) (value : IsCutValue column true u) :
    IsCut column ('?' :: ' ' :: (t ++ '\n' :: (List.replicate column ' ' ++ ':' :: u))) where
  nonempty := List.cons_ne_nil _ _
  opens := opens_cons.mpr ⟨Layout.mark_isGraphic, by decide⟩
  isPrinted := isPrinted_marked written value.isPrinted column
  stops l r indent outer before deep stands := by
    simp only [List.cons_append, List.append_assoc] at stands
    obtain ⟨m, reads, behind, place⟩ := stands.marked deep written
      ((endsWord_append value.nonempty _).trans value.ends)
    obtain ⟨ts, stops, breaks⟩ := value.stops behind fun _ => place
    rw [List.append_assoc, List.append_assoc] at stops
    exact ⟨_, .of_reads reads stops,
      (breaks.value (.scalar plain (String.ofList s))).breaksOffAt indent column⟩

/-- An entry in front of others. -/
theorem cons {k : String} {n : Node}
    (first : IsEntries column t (.key :: .scalar plain k :: .value :: ts)) (value : Parses ts n)
    (second : IsCut column u) :
    IsCut column (t ++ '\n' :: (List.replicate column ' ' ++ u)) where
  nonempty := List.append_ne_nil_of_left_ne_nil first.nonempty _
  opens := first.opens.append first.nonempty _
  isPrinted := isPrinted_lines first.isPrinted second.isPrinted column
  stops l r indent outer before deep stands := by
    rw [List.append_assoc, List.cons_append, List.append_assoc] at stands
    obtain ⟨m, reads, stands₁⟩ :=
      first.reads (second.opens.append second.nonempty _) le_rfl deep stands
    -- Behind an entry the mapping is open, so a broken key there cannot be a node of its own.
    obtain ⟨us, stops, breaks⟩ := second.stops (Int.le_refl _) stands₁
    rw [BreaksOffAt, if_neg (Int.lt_irrefl _)] at breaks
    rw [List.append_assoc, List.append_assoc] at stops
    exact ⟨_, .of_reads reads stops,
      (FailsEntries.cons (.scalar plain k) value breaks).breaksOffAt indent column⟩

/-- A text that starts with entries in which reading stops is malformed. -/
theorem ofText_eq (cut : IsCut 0 t) (r : List Char) : Node.ofText (t ++ r) = .error .malformed := by
  have stands : (Layout.start (t ++ r)).At (t ++ r) (0 : ℕ) (-1) [] [] :=
    Layout.at_of_opens ⟨rfl, rfl, rfl, rfl, by simp [Layout.start], by simp [Layout.start]⟩
      (cut.opens.append cut.nonempty r) rfl rfl rfl (by simp [Layout.start])
  obtain ⟨ts, ⟨m, reads, fails, tokens⟩, breaks⟩ := cut.stops (by decide) stands
  have scanned : scan (t ++ r) = (ts, .malformed) := by
    rw [← List.nil_append ts, ← tokens]
    exact Layout.scanFrom_eq_of_error reads fails (Nat.lt_succ_self _)
  rw [BreaksOffAt, if_pos (by decide)] at breaks
  unfold Node.ofText
  split
  · rfl
  · rw [scanned]
    exact breaks.document (by omega)

end IsCut

end Texts

section Pages

/-! ### Pages -/

namespace Outline

/-- What is written behind a key starts so that reading stops in it. -/
def CutsOff (column : ℕ) (v : Outline) : Prop :=
  ∀ ⦃p : Page⦄ ⦃explicit : Bool⦄, p.Keyed explicit column →
    ∃ t, IsCutValue column explicit t ∧ p.text ++ t <+: (v.put column p).text

/-- Entries that are written at a column start so that reading stops in them. -/
def CutsOffEntries (column : ℕ) (es : List (String × Outline)) : Prop :=
  ∀ ⦃p : Page⦄, (p.indent column).Starts column →
    ∃ t, IsCut column t ∧ (p.indent column).text ++ t <+: (putEntries column p es).text

variable {k : String} {v : Outline} {es : List (String × Outline)}

/-- What is written behind a key that is too long does not matter, but that something is. -/
theorem cutsOff_longKey (simple : isSimpleKey k = true) (long : 1024 < (keyText k).length)
    (narrow : column + 2 < lineWidth)
    (value : ∀ ⦃p : Page⦄, p.Keyed false column → ∃ t, t ≠ [] ∧ endsWord t = true ∧
      (∀ c ∈ t, IsPrinted c) ∧ p.text ++ t <+: (v.put column p).text) :
    CutsOffEntries column ((k, v) :: es) := by
  intro p starts
  obtain ⟨plain, written, -, line, text, keyed⟩ := exists_putKey_simple simple narrow starts
  obtain ⟨t, nonempty, ends, printed, before⟩ := value keyed
  refine ⟨_, .longKey written line long nonempty ends printed, ?_⟩
  rw [text] at before
  simpa [putEntries] using before.trans (extends_putEntries column _ es)

/-- An entry whose value breaks off. -/
theorem cutsOff_value (fits : KeyFits k) (narrow : column + 2 < lineWidth)
    (value : v.CutsOff column) : CutsOffEntries column ((k, v) :: es) := by
  intro p starts
  cases simple : isSimpleKey k with
  | true =>
    obtain ⟨plain, written, -, line, text, keyed⟩ := exists_putKey_simple simple narrow starts
    obtain ⟨t, cut, before⟩ := value keyed
    refine ⟨_, .simple written line (fits simple) cut, ?_⟩
    rw [text] at before
    simpa [putEntries] using before.trans (extends_putEntries column _ es)
  | false =>
    obtain ⟨plain, u, written, -, text, keyed⟩ := exists_putKey_marked simple narrow starts
    obtain ⟨t, cut, before⟩ := value keyed
    refine ⟨_, .marked written cut, ?_⟩
    rw [text] at before
    simpa [putEntries] using before.trans (extends_putEntries column _ es)

/-- An entry in front of others that break off. -/
theorem cutsOff_cons {n : Node} (fits : KeyFits k) (narrow : column + 2 < lineWidth)
    (value : v.Writes column n) (others : CutsOffEntries column es) :
    CutsOffEntries column ((k, v) :: es) := by
  intro p starts
  obtain ⟨t, plain, ts, entry, -, parses, text, used⟩ := exists_putEntry fits narrow value starts
  obtain ⟨text', starts'⟩ := Page.indent_of_used column (.inl used)
  obtain ⟨u, cut, before⟩ := others starts'
  refine ⟨_, .cons entry parses cut, ?_⟩
  rw [text', text] at before
  simpa [putEntries] using before

/-- A mapping starts on a new line, or on that of a colon that stands on its own. -/
theorem cutsOff_mapping (nonempty : es ≠ []) (cuts : CutsOffEntries (column + 2) es) :
    (mapping es).CutsOff column := by
  obtain ⟨e, es, rfl⟩ := List.exists_cons_of_ne_nil nonempty
  intro p explicit keyed
  cases explicit with
  | false =>
    obtain ⟨text, starts⟩ := Page.indent_of_used (column + 2) (.inl keyed.fresh)
    obtain ⟨t, cut, before⟩ := cuts starts
    refine ⟨_, .nested cut, ?_⟩
    rw [text] at before
    simpa [put] using before
  | true =>
    obtain ⟨text, starts⟩ := Page.indent_of_free (column + 2) keyed.fresh
      (.inl (by rw [keyed.column rfl]; omega))
    obtain ⟨t, cut, before⟩ := cuts starts
    refine ⟨_, .nested_of_explicit cut, ?_⟩
    rw [text, keyed.column rfl, show column + 2 - (column + 1) = 1 by omega] at before
    simpa [put] using before

mutual

/-- A key that is too long makes a value break off. -/
theorem cutsOff {column : ℕ} : (v : Outline) → v.Fits column → ¬v.KeysFit → v.CutsOff column
  | .scalar _ _, _, long => absurd trivial long
  | .mapping [], _, long => absurd trivial long
  | .mapping (e :: es), fits, long =>
    cutsOff_mapping (List.cons_ne_nil e es) (cutsOffEntries (e :: es) fits long)

/-- A key that is too long makes entries break off. -/
theorem cutsOffEntries {column : ℕ} : (es : List (String × Outline)) → EntriesFit column es →
    ¬EntryKeysFit es → CutsOffEntries column es
  | [], _, long => absurd trivial long
  | (k, v) :: es, fits, long => by
    obtain ⟨narrow, valueFits, othersFit⟩ := fits
    -- The first key that is too long is that of this entry, or in its value, or behind it.
    by_cases key : KeyFits k
    · by_cases value : v.KeysFit
      · have others : ¬EntryKeysFit es := fun others => long ⟨key, value, others⟩
        exact cutsOff_cons key narrow (writes v valueFits value)
          (cutsOffEntries es othersFit others)
      · exact cutsOff_value key narrow (cutsOff v valueFits value)
    · obtain ⟨simple, tooLong⟩ := Classical.not_imp.mp key
      refine cutsOff_longKey simple (by omega) narrow fun p keyed => ?_
      -- Whether the value could be read or not, it starts with white space behind the colon.
      by_cases value : v.KeysFit
      · obtain ⟨t, ts, isValue, -, text, -⟩ := writes v valueFits value keyed
        exact ⟨t, isValue.nonempty, isValue.ends, isValue.isPrinted, text ▸ List.prefix_rfl⟩
      · obtain ⟨t, cut, before⟩ := cutsOff v valueFits value keyed
        exact ⟨t, cut.nonempty, cut.ends, cut.isPrinted, before⟩

end

/-- A text of entries with a key that is too long starts with printed characters behind which no
text can follow that makes it a document. -/
theorem exists_cut (nonempty : es ≠ []) (fits : EntriesFit 0 es) (long : ¬EntryKeysFit es) :
    ∃ t, t <+: (mapping es).text ∧ (∀ c ∈ t, IsPrinted c) ∧
      ∀ r, Node.ofText (t ++ r) = .error .malformed := by
  obtain ⟨text, starts⟩ := Page.indent_of_free 0 (rfl : Page.empty.fresh = true) (.inr ⟨rfl, rfl⟩)
  obtain ⟨t, cut, before⟩ := cutsOffEntries es fits long starts
  refine ⟨t, ?_, cut.isPrinted, cut.ofText_eq⟩
  obtain ⟨e, es, rfl⟩ := List.exists_cons_of_ne_nil nonempty
  rw [text] at before
  exact before.trans (Page.Extends.indent _ 0)

end Outline

end Pages

end Yaml

end Quorum
