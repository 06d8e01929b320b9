import Quorum.Proofs.Yaml.Cursor
import Quorum.Proofs.Yaml.Quoted

/-!
# Plain scalars are read back

A plain scalar is a row of words. A single space between two words may be written as a line end with
the indentation behind it, and both are read as that space. A word of a text that fits starts with
no number sign and ends with no colon, so nothing in it is taken for a comment or for the end of a
key; a scalar ends at the colon of its key, or at a line with less indentation.

## Main definitions

* `Yaml.IsWord` — the words of plain scalars
* `Yaml.PlainText` — the written forms of a plain scalar

## Main results

* `Yaml.exists_plain` — what is written for a text that fits
* `Yaml.PlainText.read_of_colon`, `Yaml.PlainText.read_of_lineFeed` — it is read back as a key and
  as the last word of a line
-/

namespace Quorum

namespace Yaml

/-- The words of plain scalars. -/
structure IsWord (w : List Char) : Prop where
  nonempty : w ≠ []
  graphic : ∀ c ∈ w, IsGraphic c
  comment : w.head? ≠ some '#'
  colon : w.getLast? ≠ some ':'

/-- The written forms of a plain scalar: a single space between words may become a line end. -/
inductive PlainText (column : ℕ) : List Char → List Char → Prop
  | word {w : List Char} (isWord : IsWord w) : PlainText column w w
  | spaces {w s t : List Char} (n : ℕ) (isWord : IsWord w) : PlainText column s t →
    PlainText column (w ++ (List.replicate (n + 1) ' ' ++ s))
      (w ++ (List.replicate (n + 1) ' ' ++ t))
  | wrap {w s t : List Char} (isWord : IsWord w) : PlainText column s t →
    PlainText column (w ++ ' ' :: s) (w ++ '\n' :: (List.replicate column ' ' ++ t))

variable {column indent : ℕ} {s t r : List Char} {k : Cursor}

namespace IsWord

variable {w : List Char}

theorem opens (isWord : IsWord w) (r : List Char) : Opens (w ++ r) := by
  obtain ⟨c, w, rfl⟩ := List.exists_cons_of_ne_nil isWord.nonempty
  exact opens_cons.mpr ⟨isWord.graphic c List.mem_cons_self,
    fun same => isWord.comment (congrArg some same)⟩

theorem isPrinted (isWord : IsWord w) : ∀ c ∈ w, IsPrinted c :=
  fun c member => .inl (isWord.graphic c member)

theorem not_mem (isWord : IsWord w) : '\n' ∉ w :=
  fun member => (isWord.graphic _ member).ne_lineFeed rfl

/-- A word is read up to its end. -/
theorem read_eq (isWord : IsWord w) (stops : Plain.stops false r = true) :
    Plain.word false (w ++ r) = (w, r) := by
  obtain ⟨-, graphic, -, colon⟩ := isWord
  induction w with
  | nil =>
    cases r with
    | nil => rfl
    | cons c r => simp [Plain.word, stops]
  | cons c w ih =>
    obtain ⟨first, others⟩ := List.forall_mem_cons.mp graphic
    have goes : Plain.stops false (c :: (w ++ r)) = false := by
      cases w with
      | nil =>
        have apart : c ≠ ':' := by simpa using colon
        simp [Plain.stops, first.isBlank_eq, first.isBreak_eq, apart]
      | cons d w =>
        have next := others d List.mem_cons_self
        simp [Plain.stops, first.isBlank_eq, first.isBreak_eq, endsWord, next.isBlank_eq,
          next.isBreak_eq]
    have rest : Plain.word false (w ++ r) = (w, r) := by
      cases w with
      | nil => exact ih others (by simp)
      | cons d w => exact ih others (by simpa using colon)
    simp [Plain.word, goes, rest]

end IsWord

section Gaps

/-! ### Gaps between words -/

/-- Spaces behind a line end are moved over. -/
theorem Plain.blankLines_eq (opens : Opens r) {n fuel : ℕ} (enough : n < fuel)
    (starts : k.rest = List.replicate n ' ' ++ r) :
    Plain.blankLines fuel k = ([], false, k.forward n) := by
  induction n generalizing k fuel with
  | zero =>
    obtain ⟨fuel, rfl⟩ := Nat.exists_eq_succ_of_ne_zero enough.ne'
    rw [List.replicate_zero, List.nil_append] at starts
    unfold Plain.blankLines
    rw [starts]
    cases r with
    | nil => rfl
    | cons c r => simp [(opens c rfl).1.ne_space, (opens c rfl).1.isBreak_eq, Cursor.forward]
  | succ n ih =>
    obtain ⟨fuel, rfl⟩ := Nat.exists_eq_succ_of_ne_zero (by omega : fuel ≠ 0)
    rw [List.replicate_succ, List.cons_append] at starts
    unfold Plain.blankLines
    rw [starts]
    simpa [Cursor.forward] using ih (by omega) (Cursor.rest_step starts)

/-- A gap on a line. -/
theorem Plain.gap_of_spaces (opens : Opens r) (nonempty : r ≠ []) {n : ℕ}
    (starts : k.rest = List.replicate n ' ' ++ r) :
    Plain.gap k = ⟨List.replicate n ' ', false, k.forward n⟩ := by
  obtain ⟨c, r, rfl⟩ := List.exists_cons_of_ne_nil nonempty
  have after : (k.forward n).rest = c :: r := by
    simpa using k.rest_forward starts
  have taken := opens.takeWhile_spaces n
  unfold Plain.gap
  rw [k.skipSpaces_replicate opens starts]
  simp only [starts, after, taken, (opens c rfl).1.isBreak_eq, Bool.false_eq_true, if_false]

/-- A gap with a line end in it. Only a marker of documents behind it keeps it from being read as a
space. -/
theorem Plain.gap_of_lineFeed (opens : Opens r) {n : ℕ}
    (starts : k.rest = '\n' :: (List.replicate n ' ' ++ r)) :
    Plain.gap k = ⟨if isMarker (List.replicate n ' ' ++ r) then [] else [' '], true,
      k.forward (n + 1)⟩ := by
  have next := Cursor.rest_step starts
  have none : k.skipSpaces = k := by simp [Cursor.skipSpaces, starts, Cursor.forward]
  have lines : Plain.blankLines k.rest.length k.step = ([], false, k.step.forward n) :=
    Plain.blankLines_eq opens
      (by rw [starts, List.length_cons, List.length_append, List.length_replicate]; omega) next
  have breaks : isBreak '\n' = true := rfl
  unfold Plain.gap
  rw [none]
  simp only [starts, breaks, if_true, next]
  rw [starts] at lines
  split
  · next marker =>
    -- No marker starts with a space.
    cases n with
    | zero => rfl
    | succ n => cases (isMarker_of_white (.inl rfl) _).symm.trans marker
  · rw [lines]
    rfl

end Gaps

namespace PlainText

theorem opens (written : PlainText column s t) (r : List Char) : Opens (t ++ r) := by
  cases written with
  | word isWord => exact isWord.opens r
  | spaces n isWord => rw [List.append_assoc]; exact isWord.opens _
  | wrap isWord => rw [List.append_assoc]; exact isWord.opens _

theorem nonempty (written : PlainText column s t) : t ≠ [] := by
  cases written with
  | word isWord => exact isWord.nonempty
  | spaces n isWord => exact List.append_ne_nil_of_left_ne_nil isWord.nonempty _
  | wrap isWord => exact List.append_ne_nil_of_left_ne_nil isWord.nonempty _

theorem isPrinted (written : PlainText column s t) : ∀ c ∈ t, IsPrinted c := by
  have spaces (n : ℕ) : ∀ c ∈ List.replicate n ' ', IsPrinted c := fun c member =>
    .inr (.inl (List.eq_of_mem_replicate member))
  induction written with
  | word isWord => exact isWord.isPrinted
  | spaces n isWord _ ih =>
    exact List.forall_mem_append.mpr ⟨isWord.isPrinted, List.forall_mem_append.mpr ⟨spaces _, ih⟩⟩
  | wrap isWord _ ih =>
    exact List.forall_mem_append.mpr ⟨isWord.isPrinted, List.forall_mem_cons.mpr
      ⟨.inr (.inr rfl), List.forall_mem_append.mpr ⟨spaces _, ih⟩⟩⟩

/-- On one line nothing is changed. -/
theorem eq_of_not_mem (written : PlainText column s t) (line : '\n' ∉ t) : t = s := by
  induction written with
  | word => rfl
  | spaces n _ _ ih => simp_all
  | wrap => simp at line

/-- A word is the last one if nothing can go on behind its gap. -/
theorem words_last {w : List Char} (isWord : IsWord w) (starts : k.rest = w ++ r)
    (stops : Plain.stops false r = true)
    (ends : (Plain.gap (k.forward w.length)).text = [] ∨
      (Plain.gap (k.forward w.length)).after.column < indent)
    (fuel : ℕ) (before : List Char) (broken : Bool) :
    Plain.words false indent (fuel + 1) k before broken =
      (before ++ w, (Plain.gap (k.forward w.length)).broken,
        (Plain.gap (k.forward w.length)).after) := by
  have comment : (w ++ r).head? ≠ some '#' := fun head => (isWord.opens r _ head).2 rfl
  have last : ((Plain.gap (k.forward w.length)).text.isEmpty ||
      decide ((Plain.gap (k.forward w.length)).after.rest.head? = some '#') ||
      (!false && decide ((Plain.gap (k.forward w.length)).after.column < indent))) = true := by
    rcases ends with empty | outside
    · simp [empty]
    · simp [outside]
  unfold Plain.words
  simp only [starts, isWord.read_eq stops, comment, k.upTo_append starts, last]
  simp [isWord.nonempty]

/-- A word before another one. -/
theorem words_cons {w more : List Char} {broken' : Bool} {k' : Cursor} (isWord : IsWord w)
    (starts : k.rest = w ++ r) (stops : Plain.stops false r = true) {g : Plain.Gap}
    (gap : Plain.gap (k.forward w.length) = g) (nonempty : g.text ≠ []) (opens : Opens g.after.rest)
    (deep : indent ≤ g.after.column) {fuel : ℕ}
    (read : Plain.words false indent fuel g.after g.text g.broken = (more, broken', k'))
    (before : List Char) (broken : Bool) :
    Plain.words false indent (fuel + 1) k before broken =
      (before ++ w ++ more, broken', k') := by
  have comment : (w ++ r).head? ≠ some '#' := fun head => (isWord.opens r _ head).2 rfl
  have comment' : g.after.rest.head? ≠ some '#' := fun head => (opens _ head).2 rfl
  have goes : (g.text.isEmpty || decide (g.after.rest.head? = some '#') ||
      (!false && decide (g.after.column < indent))) = false := by
    simp [nonempty, comment', deep]
  unfold Plain.words
  simp only [starts, isWord.read_eq stops, comment, k.upTo_append starts, gap, goes, read]
  simp [isWord.nonempty]

/-- The words of a plain scalar, up to a gap behind which nothing goes on. -/
theorem words_eq (written : PlainText column s t) (indented : 0 < column)
    (starts : k.rest = t ++ r) (stops : Plain.stops false r = true) (deep : indent ≤ k.column + 2)
    (wrapped : indent ≤ column) (before : List Char) (broken : Bool) {fuel : ℕ}
    (enough : t.length < fuel)
    (ends : (Plain.gap (k.forward t.length)).text = [] ∨
      (Plain.gap (k.forward t.length)).after.column < indent) :
    Plain.words false indent fuel k before broken =
      (before ++ s, (Plain.gap (k.forward t.length)).broken,
        (Plain.gap (k.forward t.length)).after) := by
  induction written generalizing k before broken fuel with
  | @word w isWord =>
    obtain ⟨fuel, rfl⟩ := Nat.exists_eq_succ_of_ne_zero (by omega : fuel ≠ 0)
    exact words_last isWord starts stops ends fuel before broken
  | @spaces w s t n isWord written ih =>
    obtain ⟨fuel, rfl⟩ := Nat.exists_eq_succ_of_ne_zero (by omega : fuel ≠ 0)
    rw [List.append_assoc, List.append_assoc] at starts
    have before_gap := k.rest_forward starts
    have opens := written.opens r
    have gap := Plain.gap_of_spaces opens (by simp [written.nonempty]) before_gap
    have behind : ((k.forward w.length).forward (n + 1)).rest = t ++ r := by
      simpa using (k.forward w.length).rest_forward before_gap
    have column_eq :
        ((k.forward w.length).forward (n + 1)).column = k.column + w.length + (n + 1) := by
      have spaces : ∀ c ∈ List.replicate (n + 1) ' ', IsPrinted c := fun c member =>
        .inr (.inl (List.eq_of_mem_replicate member))
      have line : '\n' ∉ List.replicate (n + 1) ' ' := fun member => by
        cases List.eq_of_mem_replicate member
      have step := (k.forward w.length).column_forward before_gap spaces line
      rw [List.length_replicate, k.column_forward starts isWord.isPrinted isWord.not_mem] at step
      exact step
    have total : k.forward (w ++ (List.replicate (n + 1) ' ' ++ t)).length =
        ((k.forward w.length).forward (n + 1)).forward t.length := by
      rw [← Cursor.forward_add, ← Cursor.forward_add]
      simp [Nat.add_assoc]
    rw [total] at ends ⊢
    have long := List.length_pos_iff.mpr isWord.nonempty
    have read : Plain.words false indent fuel _ (List.replicate (n + 1) ' ') false = _ :=
      ih behind (by rw [column_eq]; omega) _ _ (by simp at enough; omega) ends
    rw [words_cons isWord starts rfl gap (by simp) (by rw [behind]; exact opens)
      (by rw [column_eq]; omega) read before broken]
    simp
  | @wrap w s t isWord written ih =>
    obtain ⟨fuel, rfl⟩ := Nat.exists_eq_succ_of_ne_zero (by omega : fuel ≠ 0)
    rw [List.append_assoc, List.cons_append, List.append_assoc] at starts
    have before_gap := k.rest_forward starts
    have opens := written.opens r
    have marker : isMarker (List.replicate column ' ' ++ (t ++ r)) = false := by
      obtain ⟨n, rfl⟩ := Nat.exists_eq_succ_of_ne_zero indented.ne'
      exact isMarker_of_white (.inl rfl) _
    have gap := Plain.gap_of_lineFeed opens before_gap
    rw [marker] at gap
    have behind : ((k.forward w.length).forward (column + 1)).rest = t ++ r := by
      simpa [Nat.add_comm] using (k.forward w.length).rest_forward
        (s := '\n' :: List.replicate column ' ') before_gap
    have column_eq := (k.forward w.length).column_forward_lineFeed before_gap
    have total : k.forward (w ++ '\n' :: (List.replicate column ' ' ++ t)).length =
        ((k.forward w.length).forward (column + 1)).forward t.length := by
      rw [← Cursor.forward_add, ← Cursor.forward_add]
      simp
      congr 1
      omega
    rw [total] at ends ⊢
    have read : Plain.words false indent fuel _ [' '] true = _ :=
      ih behind (by rw [column_eq]; omega) _ _ (by simp at enough; omega) ends
    rw [words_cons isWord starts rfl gap (by simp) (by rw [behind]; exact opens)
      (by rw [column_eq]; omega) read before broken]
    simp

/-- A plain scalar in front of the colon that makes it a key. -/
theorem read_of_colon (written : PlainText column s t) (indented : 0 < column)
    (starts : k.rest = t ++ ':' :: r) (ends : endsWord r = true) (deep : indent ≤ k.column + 2)
    (wrapped : indent ≤ column) :
    Plain.read false indent k = (s, false, k.forward t.length) := by
  have gap := Plain.gap_of_spaces (n := 0) (opens_cons.mpr (by unfold IsGraphic; decide))
    (List.cons_ne_nil _ _) (k.rest_forward starts)
  have read : Plain.words false indent (k.rest.length + 1) k [] false = _ :=
    written.words_eq indented starts (by simp [Plain.stops, ends]) deep wrapped [] false
      (by rw [starts, List.length_append]; omega) (by simp [gap])
  rw [Plain.read, read, gap]
  rfl

/-- A plain scalar at the end of a line, before a line with less indentation. -/
theorem read_of_lineFeed (written : PlainText column s t) (indented : 0 < column) {next : ℕ}
    (opens : Opens r) (starts : k.rest = t ++ '\n' :: (List.replicate next ' ' ++ r))
    (deep : indent ≤ k.column + 2) (wrapped : indent ≤ column) (less : next < indent) :
    Plain.read false indent k = (s, true, (k.forward t.length).forward (next + 1)) := by
  have behind := k.rest_forward starts
  have gap := Plain.gap_of_lineFeed opens behind
  have column_eq := (k.forward t.length).column_forward_lineFeed behind
  have read : Plain.words false indent (k.rest.length + 1) k [] false = _ :=
    written.words_eq indented starts (by simp [Plain.stops, isBreak]) deep wrapped [] false
      (by rw [starts, List.length_append]; omega) (.inr (by rw [gap, column_eq]; exact less))
  rw [Plain.read, read, gap]
  rfl

end PlainText

section Writing

/-! ### Writing plain scalars -/

/-- What follows a text without inner marks has none. -/
theorem marksInside_append {s t : List Char} (none : marksInside (s ++ t) = false) :
    marksInside t = false := by
  induction s with
  | nil => exact none
  | cons c s ih =>
    refine ih ?_
    cases rest : s ++ t with
    | nil => rfl
    | cons d r =>
      rw [List.cons_append, rest, marksInside] at none
      simp only [Bool.or_eq_false_iff] at none
      exact none.2

/-- A run of visible characters behind a space, without inner marks, is a word. -/
theorem isWord_of_marksInside {w u : List Char} (nonempty : w ≠ []) (graphic : ∀ c ∈ w, IsGraphic c)
    (ends : endsWord u = true) (none : marksInside (' ' :: (w ++ u)) = false) : IsWord w := by
  refine ⟨nonempty, graphic, fun head => ?_, fun last => ?_⟩
  · obtain ⟨w', rfl⟩ := List.head?_eq_some_iff.mp head
    simp [marksInside, endsWord, isBlank] at none
  · obtain ⟨w', rfl⟩ := List.getLast?_eq_some_iff.mp last
    -- Something stands before the colon at the end, the space in front at least.
    obtain ⟨v, c, shape⟩ : ∃ v c, ' ' :: w' = v ++ [c] :=
      ⟨_, _, (List.dropLast_append_getLast (List.cons_ne_nil _ _)).symm⟩
    have inner : ' ' :: (w' ++ [':'] ++ u) = v ++ c :: ':' :: u := by
      rw [List.append_assoc, ← List.cons_append, shape]
      simp
    rw [inner] at none
    simpa [marksInside, ends] using marksInside_append none

/-- What a text consists of that can be written as it is. -/
theorem plainFits_iff {s : List Char} : plainFits s = true ↔
    s ≠ [] ∧ (∀ c ∈ s, isSpecial c = false ∧ isBreak c = false) ∧ s.head? ≠ some ' ' ∧
      s.getLast? ≠ some ' ' ∧ marksStart s = false ∧ marksInside s = false := by
  simp [plainFits, isMultiline, forall_and, and_assoc]

/-- In front of a text that fits no space makes a mark of its first character. -/
theorem marksInside_space {s : List Char} (start : marksStart s = false)
    (none : marksInside s = false) : marksInside (' ' :: s) = false := by
  cases s with
  | nil => rfl
  | cons c s =>
    simp only [marksStart, Bool.or_eq_false_iff] at start
    obtain ⟨⟨-, indicator⟩, colon⟩ := start
    have comment : c ≠ '#' := by
      rintro rfl
      simp at indicator
    have colon : (c == ':' && endsWord s) = false := by
      by_cases same : c = ':' <;> simp_all
    simp [marksInside, colon, comment, none]

/-- Writes a run of a plain scalar. -/
def putPlainRun (split : Bool) (column : ℕ) (p : Page) (run : List Char) : Page :=
  if run.head? = some ' ' then (putSpaces split column p run).used else p.put run

theorem putPlainRun_of_graphic (split : Bool) (column : ℕ) (p : Page) {run : List Char}
    (graphic : ∀ c ∈ run, IsGraphic c) : putPlainRun split column p run = p.put run := by
  refine if_neg fun head => ?_
  exact (graphic ' ' (List.mem_of_mem_head? head)).ne_space rfl

/-- Spaces are written as they are, or a single one as a line end. -/
theorem text_putPlainRun_spaces (split : Bool) (column n : ℕ) {p : Page} (used : p.fresh = false) :
    (putPlainRun split column p (List.replicate (n + 1) ' ')).fresh = false ∧
      ((putPlainRun split column p (List.replicate (n + 1) ' ')).text =
          p.text ++ List.replicate (n + 1) ' ' ∨
        n = 0 ∧ split = true ∧ (putPlainRun split column p (List.replicate (n + 1) ' ')).text =
          p.text ++ '\n' :: List.replicate column ' ') := by
  have head : (List.replicate (n + 1) ' ').head? = some ' ' := rfl
  refine ⟨by simp [putPlainRun, head], ?_⟩
  rw [putPlainRun, if_pos head, Page.text_used, putSpaces]
  split
  · next wraps =>
    exact .inr ⟨by simpa using wraps.1, wraps.2.2, (Page.indent_of_used column (.inl used)).1⟩
  · exact .inl (Page.text_put p _)

/-- Without line ends there are no runs of them. -/
theorem IsRun.ne_line {kind : Kind} {run : List Char} (isRun : IsRun kind run)
    (unbroken : ∀ c ∈ run, isBreak c = false) : kind ≠ .line := by
  rintro rfl
  obtain ⟨c, run', rfl⟩ := List.exists_cons_of_ne_nil isRun.nonempty
  have same := isRun.same c List.mem_cons_self
  simp only [Kind.of, unbroken c List.mem_cons_self, Bool.false_eq_true, if_false] at same
  split at same <;> cases same

theorem Kind.eq_word {kind : Kind} (space : some Kind.space ≠ some kind) (line : kind ≠ .line) :
    kind = .word := by
  cases kind with
  | space => exact absurd rfl space
  | line => exact absurd rfl line
  | word => rfl

theorem Kind.eq_space {kind : Kind} (word : some Kind.word ≠ some kind) (line : kind ≠ .line) :
    kind = .space := by
  cases kind with
  | space => rfl
  | line => exact absurd rfl line
  | word => exact absurd rfl word

/-- The runs of a plain scalar, written on a line that is in use. -/
theorem exists_putPlainRuns (column : ℕ) (split : Bool) {rs : List (List Char)}
    (alternate : Alternate (some .space) rs) (nonempty : rs ≠ [])
    (visible : ∀ c ∈ rs.flatten, isSpecial c = false ∧ isBreak c = false)
    (last : rs.flatten.getLast? ≠ some ' ') (none : marksInside (' ' :: rs.flatten) = false)
    {p : Page} (used : p.fresh = false) :
    ∃ t, PlainText column rs.flatten t ∧
      (rs.foldl (putPlainRun split column) p).text = p.text ++ t ∧
      (rs.foldl (putPlainRun split column) p).fresh = false ∧
      (split = false → '\n' ∉ t) := by
  induction rs using List.twoStepInduction generalizing p with
  | nil => exact absurd rfl nonempty
  | singleton run =>
    obtain ⟨kind, isRun, other, -⟩ := alternate.of_cons
    rw [List.flatten_cons, List.flatten_nil] at visible none
    have visible_run (c : Char) (member : c ∈ run) := visible c (List.mem_append_left [] member)
    obtain rfl := Kind.eq_word other (isRun.ne_line fun c member => (visible_run c member).2)
    have graphic := isRun.isGraphic fun c member => (visible_run c member).1
    have isWord := isWord_of_marksInside isRun.nonempty graphic (u := []) rfl none
    refine ⟨run, by simpa using PlainText.word isWord, ?_, ?_, fun _ => isWord.not_mem⟩
    · simp [putPlainRun_of_graphic split column p isWord.graphic]
    · simp [putPlainRun_of_graphic split column p isWord.graphic, used]
  | cons_cons run gap rest ih =>
    obtain ⟨kind, isRun, other, alternate⟩ := alternate.of_cons
    obtain ⟨kind', isRun', other', alternate'⟩ := alternate.of_cons
    simp only [List.flatten_cons, List.forall_mem_append] at visible
    obtain ⟨visible_run, visible_gap, visible_rest⟩ := visible
    obtain rfl := Kind.eq_word other (isRun.ne_line fun c member => (visible_run c member).2)
    obtain rfl := Kind.eq_space other' (isRun'.ne_line fun c member => (visible_gap c member).2)
    obtain ⟨n, rfl⟩ := isRun'.eq_spaces
    have graphic := isRun.isGraphic fun c member => (visible_run c member).1
    have isWord := isWord_of_marksInside isRun.nonempty graphic
      (u := List.replicate (n + 1) ' ' ++ rest.flatten) rfl none
    have more : rest ≠ [] := by
      rintro rfl
      exact last (by simp [List.getLast?_append, List.replicate_succ'])
    have last' : rest.flatten.getLast? ≠ some ' ' := fun same =>
      last (by simp [List.getLast?_append, same])
    have none' : marksInside (' ' :: rest.flatten) = false := by
      refine marksInside_append (s := ' ' :: (run ++ List.replicate n ' ')) ?_
      simpa [List.replicate_succ', List.append_assoc] using none
    obtain ⟨used', written_gap⟩ := text_putPlainRun_spaces split column n (p := p.put run) used
    obtain ⟨t, written, text, used'', lines⟩ := ih alternate' more visible_rest last' none' used'
    rw [List.flatten_cons, List.flatten_cons, List.foldl_cons, List.foldl_cons,
      putPlainRun_of_graphic split column p graphic, text]
    rcases written_gap with same | ⟨rfl, wraps, broken⟩
    · refine ⟨_, .spaces n isWord written, ?_, used'', fun unsplit => ?_⟩
      · simp [same]
      · simp [isWord.not_mem, lines unsplit]
    · refine ⟨_, .wrap isWord written, ?_, used'', fun unsplit => ?_⟩
      · rw [broken]
        simp
      · simp [unsplit] at wraps

/-- What is written for a text as it is. -/
theorem exists_plain (column : ℕ) (split : Bool) {s : List Char} (fits : plainFits s = true)
    (p : Page) :
    ∃ t, PlainText column s t ∧
      (putPlain split column p s).text = p.text ++ (if p.blank then [] else [' ']) ++ t ∧
      (putPlain split column p s).fresh = false ∧ (split = false → '\n' ∉ t) := by
  obtain ⟨nonempty, visible, first, last, start, none⟩ := plainFits_iff.mp fits
  have flat := flatten_runs s
  have alternate : Alternate (some .space) (runs s) := by
    have alternate := alternate_runs s
    cases shape : runs s with
    | nil => exact .nil
    | cons run rest =>
      rw [shape] at alternate flat
      obtain ⟨kind, isRun, -, rest⟩ := alternate.of_cons
      refine .cons isRun ?_ rest
      rintro ⟨⟩
      obtain ⟨n, rfl⟩ := isRun.eq_spaces
      exact first (by rw [← flat]; rfl)
  have filled : runs s ≠ [] := by
    intro empty
    rw [empty] at flat
    exact nonempty flat.symm
  obtain ⟨t, written, text, used, lines⟩ := exists_putPlainRuns column split alternate
    filled (by rwa [flat]) (by rwa [flat]) (by rw [flat]; exact marksInside_space start none)
    (p := (if p.blank then p else p.put [' ']).used) rfl
  rw [flat] at written
  refine ⟨t, written, ?_, ?_, lines⟩
  · rw [putPlain, if_neg (by simpa using nonempty)]
    change (List.foldl (putPlainRun split column) _ (runs s)).text = _
    rw [text]
    cases p.blank <;> simp
  · rw [putPlain, if_neg (by simpa using nonempty)]
    exact used

end Writing

end Yaml

end Quorum
