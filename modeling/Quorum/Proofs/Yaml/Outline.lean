import Quorum.Proofs.Yaml.Entry
import Quorum.Proofs.Yaml.Node

/-!
# Written outlines are read back

Texts of values and of entries are composed as the writer composes them, each with what it is read
as whatever follows it. A value starts behind the colon of its key, so the line end in front of a
nested mapping belongs to the value. An outline is read back if its scalars tell their kinds, it is
not nested so deeply that nothing fits on a line, and its keys can be read where they are written.

## Main definitions

* `Yaml.IsValue`, `Yaml.IsEntries` — texts of values and entries, and the tokens that they are read
  as
* `Yaml.Outline.node` — the node that an outline stands for
* `Yaml.Outline.Fits`, `Yaml.Outline.KeysFit` — the outlines that are read back

## Main results

* `Yaml.Outline.ofText_text` — the text of an outline that fits is read as its node
-/

namespace Quorum

namespace Yaml

variable {column : ℕ} {explicit plain : Bool} {s t u : List Char} {ts us : List Token}

section Texts

/-! ### Texts and their tokens -/

theorem endsWord_append (nonempty : s ≠ []) (t : List Char) : endsWord (s ++ t) = endsWord s := by
  obtain ⟨c, s, rfl⟩ := List.exists_cons_of_ne_nil nonempty
  rfl

theorem isPrinted_spaces (n : ℕ) : ∀ c ∈ List.replicate n ' ', IsPrinted c := fun _ member =>
  .inr (.inl (List.eq_of_mem_replicate member))

/-- Lines one after the other. -/
theorem isPrinted_lines (first : ∀ c ∈ t, IsPrinted c) (second : ∀ c ∈ u, IsPrinted c)
    (column : ℕ) : ∀ c ∈ t ++ '\n' :: (List.replicate column ' ' ++ u), IsPrinted c :=
  List.forall_mem_append.mpr ⟨first, List.forall_mem_cons.mpr
    ⟨.inr (.inr rfl), List.forall_mem_append.mpr ⟨isPrinted_spaces column, second⟩⟩⟩

/-- A key and what follows its colon. -/
theorem isPrinted_simple (written : ScalarText column plain s t) (value : ∀ c ∈ u, IsPrinted c) :
    ∀ c ∈ t ++ ':' :: u, IsPrinted c :=
  List.forall_mem_append.mpr ⟨written.isPrinted,
    List.forall_mem_cons.mpr ⟨.inl Layout.colon_isGraphic, value⟩⟩

/-- A key with a mark in front of it, and what follows its colon. -/
theorem isPrinted_marked {indent : ℕ} (written : ScalarText indent plain s t)
    (value : ∀ c ∈ u, IsPrinted c) (column : ℕ) :
    ∀ c ∈ '?' :: ' ' :: (t ++ '\n' :: (List.replicate column ' ' ++ ':' :: u)), IsPrinted c :=
  List.forall_mem_cons.mpr ⟨.inl Layout.mark_isGraphic, List.forall_mem_cons.mpr ⟨.inr (.inl rfl),
    isPrinted_lines written.isPrinted
      (List.forall_mem_cons.mpr ⟨.inl Layout.colon_isGraphic, value⟩) column⟩⟩

/-- Texts that are read as values behind the colon of a key at a column, up to the end of a line. -/
structure IsValue (column : ℕ) (explicit : Bool) (t : List Char) (ts : List Token) : Prop where
  nonempty : t ≠ []
  ends : endsWord t = true
  isPrinted : ∀ c ∈ t, IsPrinted c
  reads : ∀ ⦃l : Layout⦄ ⦃r : List Char⦄ ⦃next : ℕ⦄ ⦃outer : List ℤ⦄ ⦃before : List Token⦄,
    Opens r → next ≤ column →
    l.Behind (t ++ '\n' :: (List.replicate next ' ' ++ r)) explicit column outer before →
    (explicit = true → l.place.column = column + 1) →
    ∃ l' : Layout, Relation.ReflTransGen Layout.Reads l l' ∧
      l'.At r next column outer (before ++ ts)

/-- Texts that are read as entries at a column, up to the end of a line. -/
structure IsEntries (column : ℕ) (t : List Char) (ts : List Token) : Prop where
  nonempty : t ≠ []
  opens : Opens t
  isPrinted : ∀ c ∈ t, IsPrinted c
  reads : ∀ ⦃l : Layout⦄ ⦃r : List Char⦄ ⦃next : ℕ⦄ ⦃indent : ℤ⦄ ⦃outer : List ℤ⦄
    ⦃before : List Token⦄, Opens r → next ≤ column → indent ≤ column →
    l.At (t ++ '\n' :: (List.replicate next ' ' ++ r)) column indent outer before →
    ∃ l' : Layout, Relation.ReflTransGen Layout.Reads l l' ∧
      l'.At r next column (Layout.around indent column outer)
        (before ++ Layout.opened indent column ++ ts)

/-- Entries right of a key are a mapping, which ends with them. -/
theorem IsEntries.reads_nested (entries : IsEntries (column + 2) t ts) {l : Layout} {r : List Char}
    {next : ℕ} {outer : List ℤ} {before : List Token} (opens : Opens r) (less : next ≤ column)
    (stands : l.At (t ++ '\n' :: (List.replicate next ' ' ++ r)) (column + 2 : ℕ) column outer
      before) :
    ∃ l' : Layout, Relation.ReflTransGen Layout.Reads l l' ∧
      l'.At r next column outer (before ++ .mappingStart :: (ts ++ [.blockEnd])) := by
  have right : (column : ℤ) < (column + 2 : ℕ) := by omega
  obtain ⟨l', reads, stands'⟩ := entries.reads opens (by omega) (Int.le_of_lt right) stands
  rw [Layout.around, if_pos right, Layout.opened, if_pos right] at stands'
  refine ⟨l', reads, ?_⟩
  simpa using stands'.blockEnd (by omega)

namespace IsValue

theorem scalar (written : ScalarText (column + 2) plain s t) :
    IsValue column explicit (' ' :: t) [.scalar plain (String.ofList s)] where
  nonempty := List.cons_ne_nil _ _
  ends := rfl
  isPrinted := List.forall_mem_cons.mpr ⟨.inr (.inl rfl), written.isPrinted⟩
  reads l r next outer before opens less behind _ := by
    obtain ⟨l', step, stands⟩ := behind.scalar written opens less
    exact ⟨l', .single step, stands⟩

theorem empty : IsValue column explicit " \x7b\x7d".toList [.openMap, .closeMap] where
  nonempty := by decide
  ends := rfl
  isPrinted := by simp [IsPrinted, IsGraphic]
  reads _ _ _ _ _ opens _ behind _ := behind.empty opens

/-- A mapping on the lines behind its key. -/
theorem nested (entries : IsEntries (column + 2) t ts) :
    IsValue column false ('\n' :: (List.replicate (column + 2) ' ' ++ t))
      (.mappingStart :: (ts ++ [.blockEnd])) where
  nonempty := List.cons_ne_nil _ _
  ends := rfl
  isPrinted := List.forall_mem_cons.mpr ⟨.inr (.inr rfl),
    List.forall_mem_append.mpr ⟨isPrinted_spaces _, entries.isPrinted⟩⟩
  reads l r next outer before opens less behind _ := by
    rw [List.cons_append, List.append_assoc] at behind
    exact entries.reads_nested opens less
      (behind.nested (entries.opens.append entries.nonempty _))

/-- A mapping that starts behind a colon on a line of its own. -/
theorem nested_of_explicit (entries : IsEntries (column + 2) t ts) :
    IsValue column true (' ' :: t) (.mappingStart :: (ts ++ [.blockEnd])) where
  nonempty := List.cons_ne_nil _ _
  ends := rfl
  isPrinted := List.forall_mem_cons.mpr ⟨.inr (.inl rfl), entries.isPrinted⟩
  reads _ _ _ _ _ opens less behind place :=
    entries.reads_nested opens less
      (behind.nested_of_explicit (entries.opens.append entries.nonempty _) (place rfl))

end IsValue

namespace IsEntries

/-- A key on the line of its value. -/
theorem simple (written : ScalarText (column + 2) plain s t) (line : '\n' ∉ t)
    (short : t.length ≤ 1024) (value : IsValue column false u us) :
    IsEntries column (t ++ ':' :: u) (.key :: .scalar plain (String.ofList s) :: .value :: us) where
  nonempty := List.append_ne_nil_of_left_ne_nil written.nonempty _
  opens := written.opens _
  isPrinted := isPrinted_simple written value.isPrinted
  reads l r next indent outer before opens less deep stands := by
    rw [List.append_assoc, List.cons_append] at stands
    obtain ⟨m, first, behind⟩ := stands.simpleKey deep written line short
      ((endsWord_append value.nonempty _).trans value.ends)
    obtain ⟨l', second, stands'⟩ := value.reads opens less behind (by simp)
    refine ⟨l', first.trans second, ?_⟩
    simpa using stands'

/-- A key with a mark in front of it. -/
theorem marked (written : ScalarText (column + 2) plain s t) (value : IsValue column true u us) :
    IsEntries column ('?' :: ' ' :: (t ++ '\n' :: (List.replicate column ' ' ++ ':' :: u)))
      (.key :: .scalar plain (String.ofList s) :: .value :: us) where
  nonempty := List.cons_ne_nil _ _
  opens := opens_cons.mpr ⟨Layout.mark_isGraphic, by decide⟩
  isPrinted := isPrinted_marked written value.isPrinted column
  reads l r next indent outer before opens less deep stands := by
    simp only [List.cons_append, List.append_assoc] at stands
    obtain ⟨m, first, behind, place⟩ := stands.marked deep written
      ((endsWord_append value.nonempty _).trans value.ends)
    obtain ⟨l', second, stands'⟩ := value.reads opens less behind fun _ => place
    refine ⟨l', first.trans second, ?_⟩
    simpa using stands'

/-- Entries behind others. -/
theorem append (first : IsEntries column t ts) (second : IsEntries column u us) :
    IsEntries column (t ++ '\n' :: (List.replicate column ' ' ++ u)) (ts ++ us) where
  nonempty := List.append_ne_nil_of_left_ne_nil first.nonempty _
  opens := first.opens.append first.nonempty _
  isPrinted := isPrinted_lines first.isPrinted second.isPrinted column
  reads l r next indent outer before opens less deep stands := by
    have again : Layout.around column column (Layout.around indent column outer) =
        Layout.around indent column outer ∧ Layout.opened column column = [] := by
      simp [Layout.around, Layout.opened]
    rw [List.append_assoc, List.cons_append, List.append_assoc] at stands
    obtain ⟨m, reads, stands₁⟩ :=
      first.reads (second.opens.append second.nonempty _) le_rfl deep stands
    obtain ⟨l', reads', stands₂⟩ := second.reads opens less (Int.le_refl _) stands₁
    rw [again.1, again.2, List.append_nil] at stands₂
    refine ⟨l', reads.trans reads', ?_⟩
    simpa using stands₂

/-- A document of entries. -/
theorem scan_eq (entries : IsEntries 0 t ts) :
    scan (t ++ ['\n']) = (.mappingStart :: (ts ++ [.blockEnd, .streamEnd]), .malformed) := by
  have opens := entries.opens.append entries.nonempty ['\n']
  have stands : (Layout.start (t ++ ['\n'])).At (t ++ '\n' :: (List.replicate 0 ' ' ++ [])) (0 : ℕ)
      (-1) [] [] :=
    Layout.at_of_opens ⟨rfl, rfl, rfl, rfl, by simp [Layout.start], by simp [Layout.start]⟩ opens
      rfl rfl rfl (by simp [Layout.start])
  obtain ⟨l', reads, stands'⟩ := entries.reads opens_nil le_rfl (by decide) stands
  obtain ⟨m, ended, tokens⟩ := Layout.At.next_end stands'
  have scanned : scan (t ++ ['\n']) = (m.tokens, .malformed) :=
    Layout.scanFrom_eq reads ended (Nat.lt_succ_self _)
  rw [scanned, tokens]
  rfl

end IsEntries

end Texts

section Pages

/-! ### Pages -/

/-- A page on which a key and its colon have been written, the colon on a line of its own or not. -/
structure Page.Keyed (p : Page) (explicit : Bool) (column : ℕ) : Prop where
  blank : p.blank = false
  fresh : p.fresh = explicit
  column : explicit = true → p.column = column + 1

namespace Outline

mutual

/-- The node that an outline stands for. -/
def node : Outline → Node
  | scalar t s => .scalar t s
  | mapping es => .mapping .map (nodes es)

/-- The entries that the entries of an outline stand for. -/
def nodes : List (String × Outline) → List (Node × Node)
  | [] => []
  | (k, v) :: es => (.scalar .str k, node v) :: nodes es

end

mutual

/-- The outlines whose scalars tell their kinds, and in which something fits on every line, when
they are written behind a key at a column. -/
def Fits (column : ℕ) : Outline → Prop
  | scalar t s => Legible t s ∧ column + 2 < lineWidth
  | mapping es => EntriesFit (column + 2) es

/-- The same for entries that are written at a column. -/
def EntriesFit (column : ℕ) : List (String × Outline) → Prop
  | [] => True
  | (_, v) :: es => column + 2 < lineWidth ∧ Fits column v ∧ EntriesFit column es

end

mutual

/-- Whether every key in an outline can be read. -/
def KeysFit : Outline → Prop
  | scalar _ _ => True
  | mapping es => EntryKeysFit es

/-- Whether every key in entries can be read. -/
def EntryKeysFit : List (String × Outline) → Prop
  | [] => True
  | (k, v) :: es => KeyFits k ∧ KeysFit v ∧ EntryKeysFit es

end

theorem entriesFit_iff {es : List (String × Outline)} : EntriesFit column es ↔
    ∀ e ∈ es, column + 2 < lineWidth ∧ Fits column e.2 := by
  induction es with
  | nil => simp [EntriesFit]
  | cons e es ih => simp [EntriesFit, ih, and_assoc]

theorem entryKeysFit_iff {es : List (String × Outline)} : EntryKeysFit es ↔
    ∀ e ∈ es, KeyFits e.1 ∧ KeysFit e.2 := by
  induction es with
  | nil => simp [EntryKeysFit]
  | cons e es ih => simp [EntryKeysFit, ih, and_assoc]

/-- What is written behind a key is read back as a node. -/
def Writes (column : ℕ) (v : Outline) (n : Node) : Prop :=
  ∀ ⦃p : Page⦄ ⦃explicit : Bool⦄, p.Keyed explicit column →
    ∃ t ts, IsValue column explicit t ts ∧ Parses ts n ∧ (v.put column p).text = p.text ++ t ∧
      (v.put column p).fresh = false

/-- Entries that are written at a column are read back, if there are any. -/
def WritesEntries (column : ℕ) (es : List (String × Outline)) (ns : List (Node × Node)) : Prop :=
  es ≠ [] ∧ ∀ ⦃p : Page⦄, (p.indent column).Starts column →
    ∃ t ts, IsEntries column t ts ∧ ParsesEntries ts ns ∧
      (putEntries column p es).text = (p.indent column).text ++ t ∧
      (putEntries column p es).fresh = false

theorem writes_scalar {tag : Tag} {s : String} (legible : Legible tag s)
    (narrow : column + 2 < lineWidth) : (scalar tag s).Writes column (.scalar tag s) := by
  intro p explicit keyed
  obtain ⟨plain, t, written, kind, text, used, -⟩ :=
    exists_putScalar legible false (by omega : 0 < column + 2) narrow p
  have parses := Parses.scalar plain s
  have value : IsValue column explicit (' ' :: t) [.scalar plain (String.ofList s.toList)] :=
    .scalar written
  rw [String.ofList_toList] at value
  rw [kind] at parses
  refine ⟨_, _, value, parses, ?_, used⟩
  rw [put, text, keyed.blank]
  simp

theorem writes_empty : (mapping []).Writes column (.mapping .map []) := by
  intro p explicit keyed
  refine ⟨_, _, .empty, .empty, ?_, ?_⟩
  · rw [put, Page.text_mark, Page.text_mark, keyed.blank]
    simp
  · simp [put]

/-- A key on the line of its value. -/
theorem exists_putKey_simple {k : String} (simple : isSimpleKey k = true)
    (narrow : column + 2 < lineWidth) {p : Page} (starts : (p.indent column).Starts column) :
    ∃ plain, ScalarText (column + 2) plain k.toList (keyText k) ∧ scalarTag none plain k = .str ∧
      '\n' ∉ keyText k ∧
      (putKey column p k).text = (p.indent column).text ++ (keyText k ++ [':']) ∧
      (putKey column p k).Keyed false column := by
  have once : isMultiline k.toList = false := by
    simp only [isSimpleKey, Bool.and_eq_true, Bool.not_eq_true'] at simple
    exact simple.1.2
  obtain ⟨plain, written, tag, text, used, line⟩ :=
    exists_putScalar_key once (by omega : 0 < column + 2) narrow (p.indent column)
  refine ⟨plain, written, tag, line, ?_, ?_, ?_, by simp⟩
  · rw [putKey, if_pos simple, Page.text_mark, text, starts.blank]
    simp
  · simp [putKey, simple]
  · simp [putKey, simple, used]

/-- A key with a mark in front of it. -/
theorem exists_putKey_marked {k : String} (other : isSimpleKey k = false)
    (narrow : column + 2 < lineWidth) {p : Page} (starts : (p.indent column).Starts column) :
    ∃ plain t, ScalarText (column + 2) plain k.toList t ∧ scalarTag none plain k = .str ∧
      (putKey column p k).text = (p.indent column).text ++
        ('?' :: ' ' :: (t ++ '\n' :: (List.replicate column ' ' ++ [':']))) ∧
      (putKey column p k).Keyed true column := by
  obtain ⟨plain, t, written, tag, text, used, -⟩ :=
    exists_putScalar (.inl rfl : Legible .str k) false (by omega : 0 < column + 2) narrow
      ((p.indent column).mark ['?'] true false true)
  obtain ⟨text', starts'⟩ := Page.indent_of_used column (.inl used)
  have blank := starts'.blank
  refine ⟨plain, t, written, tag, ?_, ?_, ?_, fun _ => ?_⟩
  · rw [putKey, if_neg (by simp [other]), Page.text_mark, text', text, Page.text_mark,
      starts'.blank, starts.blank]
    simp
  · simp [putKey, other]
  · simp [putKey, other, starts'.fresh]
  · simp [putKey, other, blank, starts'.column]

/-- A key and its value. -/
theorem exists_putEntry {k : String} {v : Outline} {n : Node} (fits : KeyFits k)
    (narrow : column + 2 < lineWidth) (value : v.Writes column n) {p : Page}
    (starts : (p.indent column).Starts column) :
    ∃ t plain ts, IsEntries column t (.key :: .scalar plain k :: .value :: ts) ∧
      scalarTag none plain k = .str ∧ Parses ts n ∧
      (v.put column (putKey column p k)).text = (p.indent column).text ++ t ∧
      (v.put column (putKey column p k)).fresh = false := by
  cases simple : isSimpleKey k with
  | true =>
    obtain ⟨plain, written, tag, line, text, keyed⟩ := exists_putKey_simple simple narrow starts
    obtain ⟨t, ts, isValue, parses, text', used⟩ := value keyed
    have entries := IsEntries.simple written line (fits simple) isValue
    rw [String.ofList_toList] at entries
    refine ⟨_, plain, ts, entries, tag, parses, ?_, used⟩
    rw [text', text]
    simp
  | false =>
    obtain ⟨plain, u, written, tag, text, keyed⟩ := exists_putKey_marked simple narrow starts
    obtain ⟨t, ts, isValue, parses, text', used⟩ := value keyed
    have entries := IsEntries.marked written isValue
    rw [String.ofList_toList] at entries
    refine ⟨_, plain, ts, entries, tag, parses, ?_, used⟩
    rw [text', text]
    simp

/-- An entry in front of others, or the last one. -/
theorem writesEntries_cons {k : String} {v : Outline} {n : Node} {es : List (String × Outline)}
    {ns : List (Node × Node)} (fits : KeyFits k) (narrow : column + 2 < lineWidth)
    (value : v.Writes column n) (others : es = [] ∧ ns = [] ∨ WritesEntries column es ns) :
    WritesEntries column ((k, v) :: es) ((.scalar .str k, n) :: ns) := by
  refine ⟨List.cons_ne_nil _ _, fun p starts => ?_⟩
  obtain ⟨t, plain, ts, entry, tag, parses, text, used⟩ := exists_putEntry fits narrow value starts
  have key := Parses.scalar plain k
  rw [tag] at key
  rcases others with ⟨rfl, rfl⟩ | ⟨-, others⟩
  · have last := ParsesEntries.cons key parses .nil
    rw [List.append_nil] at last
    exact ⟨t, _, entry, last, text, used⟩
  · -- The line of the entry is in use, so the others start on the next one.
    obtain ⟨text', starts'⟩ := Page.indent_of_used column (.inl used)
    obtain ⟨u, us, entries, parses', text'', used'⟩ := others starts'
    refine ⟨_, _, entry.append entries, .cons key parses parses', ?_, used'⟩
    rw [putEntries, text'', text', text]
    simp

/-- A mapping starts on a new line, or on that of a colon that stands on its own. -/
theorem writes_mapping {es : List (String × Outline)} {ns : List (Node × Node)}
    (writes : WritesEntries (column + 2) es ns) :
    (mapping es).Writes column (.mapping .map ns) := by
  obtain ⟨nonempty, writes⟩ := writes
  obtain ⟨e, es, rfl⟩ := List.exists_cons_of_ne_nil nonempty
  intro p explicit keyed
  cases explicit with
  | false =>
    obtain ⟨text, starts⟩ := Page.indent_of_used (column + 2) (.inl keyed.fresh)
    obtain ⟨t, ts, entries, parses, text', used⟩ := writes starts
    refine ⟨_, _, .nested entries, .mapping parses, ?_, used⟩
    rw [put, text', text]
    simp
  | true =>
    -- A colon on a line of its own leaves one space up to the column of the entries.
    obtain ⟨text, starts⟩ := Page.indent_of_free (column + 2) keyed.fresh
      (.inl (by rw [keyed.column rfl]; omega))
    obtain ⟨t, ts, entries, parses, text', used⟩ := writes starts
    refine ⟨_, _, .nested_of_explicit entries, .mapping parses, ?_, used⟩
    rw [put, text', text, keyed.column rfl, show column + 2 - (column + 1) = 1 by omega]
    simp

mutual

/-- What is written for an outline that fits is read back as its node. -/
theorem writes {column : ℕ} : (v : Outline) → v.Fits column → v.KeysFit → v.Writes column v.node
  | .scalar _ _, fits, _ => writes_scalar fits.1 fits.2
  | .mapping es, fits, keys => by
    rcases writesEntries es fits keys with ⟨empty, none⟩ | writes
    · rw [node, empty]
      exact writes_empty
    · exact writes_mapping writes

/-- What is written for entries that fit is read back as their nodes. -/
theorem writesEntries {column : ℕ} : (es : List (String × Outline)) → EntriesFit column es →
    EntryKeysFit es → es = [] ∧ nodes es = [] ∨ WritesEntries column es (nodes es)
  | [], _, _ => .inl ⟨rfl, rfl⟩
  | (_, v) :: es, fits, keys =>
    .inr (writesEntries_cons keys.1 fits.1 (writes v fits.2.1 keys.2.1)
      (writesEntries es fits.2.2 keys.2.2))

end

theorem isReadable_of_isPrinted {c : Char} (printed : IsPrinted c) : isReadable c = true := by
  rcases printed with graphic | rfl | rfl
  · obtain ⟨low, high⟩ := graphic
    simp only [isReadable, Bool.or_eq_true, Bool.and_eq_true, decide_eq_true_eq]
    omega
  · decide
  · decide

/-- The text of a mapping that fits is read as its node, and consists of printed characters. -/
theorem ofText_text {es : List (String × Outline)} (nonempty : es ≠ []) (fits : EntriesFit 0 es)
    (keys : EntryKeysFit es) :
    Node.ofText (mapping es).text = .ok (some (mapping es).node) ∧
      ∀ c ∈ (mapping es).text, IsPrinted c := by
  obtain ⟨-, writes⟩ := (writesEntries es fits keys).resolve_left fun empty => nonempty empty.1
  obtain ⟨text, starts⟩ := Page.indent_of_free 0 (rfl : Page.empty.fresh = true) (.inr ⟨rfl, rfl⟩)
  obtain ⟨t, ts, entries, parses, text', used⟩ := writes starts
  have written : (mapping es).text = t ++ ['\n'] := by
    obtain ⟨e, es, rfl⟩ := List.exists_cons_of_ne_nil nonempty
    rw [Outline.text, (Page.indent_of_used 0 (.inl used)).1, text', text]
    rfl
  have printed : ∀ c ∈ t ++ ['\n'], IsPrinted c :=
    List.forall_mem_append.mpr ⟨entries.isPrinted, by simp [IsPrinted]⟩
  have readable : (t ++ ['\n']).all isReadable = true :=
    List.all_eq_true.mpr fun c member => isReadable_of_isPrinted (printed c member)
  rw [written]
  refine ⟨?_, printed⟩
  rw [Node.ofText, readable, entries.scan_eq]
  exact parses.document (by simp; omega) _

end Outline

end Pages

end Yaml

end Quorum
