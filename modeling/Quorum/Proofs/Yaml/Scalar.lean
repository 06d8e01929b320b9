import Quorum.Proofs.Yaml.Plain
import Quorum.Yaml.Node

/-!
# Written scalars

A scalar is written in the simplest of three ways that keeps it. Whatever way is taken, what is
written starts with a visible character that is no mark of the layout, and it tells the kind of the
scalar: a plain one is of the kind that it spells, and a quoted one is text.

## Main definitions

* `Yaml.ScalarText` — the written forms of a scalar
* `Yaml.Legible` — the scalars whose kind is told by their written form
* `Yaml.keyText`, `Yaml.KeyFits` — the written form of a key on the line of its value, and whether
  it can be read there

## Main results

* `Yaml.exists_putScalar`, `Yaml.exists_putScalar_key` — what is written for a legible scalar
-/

namespace Quorum

namespace Yaml

/-- The written forms of a scalar, plain or between quotes. -/
inductive ScalarText (column : ℕ) : Bool → List Char → List Char → Prop
  | plain {s t : List Char} (start : marksStart t = false) : PlainText column s t →
    ScalarText column true s t
  | single {s t : List Char} : Single column s t →
    ScalarText column false s (Quorum.Quoted.apostrophe :: (t ++ [Quorum.Quoted.apostrophe]))
  | double {s t : List Char} : Double column s t → ScalarText column false s ('"' :: (t ++ ['"']))

variable {column : ℕ} {plain : Bool} {s t r : List Char}

namespace ScalarText

theorem nonempty (written : ScalarText column plain s t) : t ≠ [] := by
  cases written with
  | plain _ written => exact written.nonempty
  | single => exact List.cons_ne_nil _ _
  | double => exact List.cons_ne_nil _ _

theorem opens (written : ScalarText column plain s t) (r : List Char) : Opens (t ++ r) := by
  cases written with
  | plain _ written => exact written.opens r
  | single => exact opens_cons.mpr ⟨Single.apostrophe_isGraphic, by decide⟩
  | double => exact opens_cons.mpr ⟨Double.quote_isGraphic, by decide⟩

theorem isPrinted (written : ScalarText column plain s t) : ∀ c ∈ t, IsPrinted c := by
  cases written with
  | plain _ written => exact written.isPrinted
  | single written =>
    have quote := Single.apostrophe_isGraphic
    refine List.forall_mem_cons.mpr ⟨.inl quote, List.forall_mem_append.mpr
      ⟨written.isPrinted, ?_⟩⟩
    simpa using .inl quote
  | double written =>
    have quote := Double.quote_isGraphic
    refine List.forall_mem_cons.mpr ⟨.inl quote, List.forall_mem_append.mpr
      ⟨written.isPrinted, ?_⟩⟩
    simpa using .inl quote

end ScalarText

section Starts

/-! ### The first characters of plain scalars -/

/-- The white space behind the first word does not matter for how a text starts. -/
theorem marksStart_append_white {w u v : List Char} {c d : Char} (nonempty : w ≠ [])
    (first : c = ' ' ∨ c = '\n') (second : d = ' ' ∨ d = '\n') :
    marksStart (w ++ c :: u) = marksStart (w ++ d :: v) := by
  obtain ⟨a, w, rfl⟩ := List.exists_cons_of_ne_nil nonempty
  match w with
  | [] =>
    rcases first with rfl | rfl <;> rcases second with rfl | rfl <;>
      simp [marksStart, endsWord, isBlank, isBreak]
  | [b] =>
    rcases first with rfl | rfl <;> rcases second with rfl | rfl <;> simp [marksStart, endsWord]
  | b :: e :: w => simp [marksStart, endsWord]

theorem PlainText.marksStart_eq (written : PlainText column s t) : marksStart t = marksStart s := by
  cases written with
  | word => rfl
  | spaces n isWord => exact marksStart_append_white isWord.nonempty (.inl rfl) (.inl rfl)
  | wrap isWord => exact marksStart_append_white isWord.nonempty (.inr rfl) (.inl rfl)

/-- Something behind a text does not make its start a mark, unless it makes a marker of it. -/
theorem marksStart_append (nonempty : t ≠ []) (start : marksStart t = false)
    (dash : r.head? ≠ some '-') (dot : r.head? ≠ some '.') : marksStart (t ++ r) = false := by
  match t, r with
  | [], _ => exact absurd rfl nonempty
  | _, [] => simpa using start
  | [a], c :: r =>
    simp_all [marksStart, endsWord]
  | [a, b], c :: r =>
    simp_all [marksStart, endsWord]
  | a :: b :: e :: t, c :: r => simpa [marksStart, endsWord] using start

end Starts

/-- Scalars whose written form tells their kind: texts, and what spells a kind and can be written as
it is. -/
def Legible (tag : Tag) (s : String) : Prop :=
  tag = .str ∨ Tag.ofPlain s = tag ∧ plainFits s.toList = true

/-- The written form of a key on the line of its value. -/
def keyText (k : String) : List Char :=
  match style .str true k with
  | .plain => k.toList
  | .single => Quorum.Quoted.apostrophe ::
      ((k.toList.flatMap fun c => if c = Quorum.Quoted.apostrophe then [c, c] else [c]) ++
        [Quorum.Quoted.apostrophe])
  | .double => '"' :: ((k.toList.flatMap fun c => (escapeText? c).getD [c]) ++ ['"'])

/-- Whether a key can be read where it is written: on the line of its value it may take at most 1024
characters. -/
def KeyFits (k : String) : Prop := isSimpleKey k = true → (keyText k).length ≤ 1024

instance (k : String) : Decidable (KeyFits k) :=
  inferInstanceAs (Decidable (isSimpleKey k = true → (keyText k).length ≤ 1024))

/-- What is written for a legible scalar. -/
theorem exists_putScalar {tag : Tag} {s : String} (legible : Legible tag s) (simpleKey : Bool)
    (indented : 0 < column) (narrow : column < lineWidth) (p : Page) :
    ∃ plain t, ScalarText column plain s.toList t ∧ scalarTag none plain s = tag ∧
      (putScalar simpleKey column p tag s).text = p.text ++ (if p.blank then [] else [' ']) ++ t ∧
      (putScalar simpleKey column p tag s).fresh = false ∧
      (simpleKey = true → isMultiline s.toList = false → '\n' ∉ t) := by
  have quoted (other : ¬(Tag.ofPlain s = tag ∧ plainFits s.toList = true)) : tag = .str :=
    legible.resolve_right other
  unfold putScalar style
  by_cases plainly : Tag.ofPlain s = tag ∧ plainFits s.toList = true
  · rw [if_pos plainly]
    obtain ⟨t, written, text, used, lines⟩ :=
      exists_plain column (!simpleKey) plainly.2 p
    obtain ⟨-, -, -, -, start, -⟩ := plainFits_iff.mp plainly.2
    exact ⟨true, t, .plain (written.marksStart_eq.trans start) written, plainly.1, text, used,
      fun simple _ => lines (by simp [simple])⟩
  · rw [if_neg plainly]
    by_cases apostrophes :
        (singleFits s.toList && !(simpleKey && isMultiline s.toList)) = true
    · rw [if_pos apostrophes]
      obtain ⟨t, written, text, used, lines⟩ :=
        exists_single (!simpleKey) (Bool.and_eq_true_iff.mp apostrophes).1 indented narrow.le p
      refine ⟨false, _, .single written, (quoted plainly).symm, text, used, fun simple once => ?_⟩
      have kept : '\n' ∉ s.toList := fun member =>
        absurd (List.any_eq_true.mpr ⟨_, member, rfl⟩) (Bool.eq_false_iff.mp once)
      simpa using ⟨by decide, lines (by simp [simple]) kept, by decide⟩
    · rw [if_neg apostrophes]
      obtain ⟨t, written, text, used, lines⟩ := exists_double (!simpleKey) s.toList narrow p
      refine ⟨false, _, .double written, (quoted plainly).symm, text, used, fun simple _ => ?_⟩
      simpa using lines (by simp [simple])

theorem plainFits_of_style {tag : Tag} {simpleKey : Bool} {s : String}
    (plainly : style tag simpleKey s = .plain) : plainFits s.toList = true := by
  unfold style at plainly
  split at plainly
  · next fits => exact fits.2
  · split at plainly <;> cases plainly

theorem singleFits_of_style {tag : Tag} {simpleKey : Bool} {s : String}
    (apostrophes : style tag simpleKey s = .single) : singleFits s.toList = true := by
  unfold style at apostrophes
  split at apostrophes
  · cases apostrophes
  · split at apostrophes
    · next fits => exact (Bool.and_eq_true_iff.mp fits).1
    · cases apostrophes

/-- What needs an escape is written between double quotes. -/
theorem keyText_of_special {k : String} (special : k.toList.any isSpecial = true) :
    keyText k = '"' :: ((k.toList.flatMap fun c => (escapeText? c).getD [c]) ++ ['"']) := by
  have way : style .str true k = .double := by
    cases way : style .str true k with
    | plain => simpa [plainFits, special] using plainFits_of_style way
    | single => simpa [singleFits, special] using singleFits_of_style way
    | double => rfl
  unfold keyText
  simp only [way]

/-- What is written for a key on the line of its value does not depend on the page. -/
theorem text_putScalar_key {k : String} (once : isMultiline k.toList = false)
    (indented : 0 < column) (narrow : column < lineWidth) (p : Page) :
    (putScalar true column p .str k).text =
      p.text ++ (if p.blank then [] else [' ']) ++ keyText k := by
  unfold putScalar keyText
  cases way : style .str true k with
  | plain =>
    obtain ⟨t, written, text, -, lines⟩ :=
      exists_plain column false (plainFits_of_style way) p
    rw [written.eq_of_not_mem (lines rfl)] at text
    exact text
  | single =>
    obtain ⟨t, written, text, -, lines⟩ :=
      exists_single false (singleFits_of_style way) indented narrow.le p
    have kept : '\n' ∉ k.toList := fun member =>
      absurd (List.any_eq_true.mpr ⟨_, member, rfl⟩) (Bool.eq_false_iff.mp once)
    rw [← written.eq_of_not_mem (lines rfl kept)]
    exact text
  | double =>
    simp only [Bool.not_true, putDouble, Page.text_mark, text_putDoubleChars_false]
    cases p.blank <;> simp

/-- The written form of a key on the line of its value. -/
theorem exists_putScalar_key {k : String} (once : isMultiline k.toList = false)
    (indented : 0 < column) (narrow : column < lineWidth) (p : Page) :
    ∃ plain, ScalarText column plain k.toList (keyText k) ∧ scalarTag none plain k = .str ∧
      (putScalar true column p .str k).text =
        p.text ++ (if p.blank then [] else [' ']) ++ keyText k ∧
      (putScalar true column p .str k).fresh = false ∧ '\n' ∉ keyText k := by
  obtain ⟨plain, t, written, tag, text, used, lines⟩ :=
    exists_putScalar (.inl rfl : Legible .str k) true indented narrow p
  have text' := text_putScalar_key once indented narrow p
  obtain rfl : t = keyText k := List.append_cancel_left (text.symm.trans text')
  exact ⟨plain, written, tag, text, used, lines rfl once⟩

theorem length_escape_le (c : Char) : ((escapeText? c).getD [c]).length ≤ 10 := by
  unfold escapeText?
  split
  · simp
  · split
    · simp
    · simp only [Option.getD_some, List.length_cons]
      split
      · simp [length_hexDigits]
      · split <;> simp [length_hexDigits]

theorem length_flatMap_le {f : Char → List Char} {n : ℕ} (bound : ∀ c, (f c).length ≤ n)
    (s : List Char) : (s.flatMap f).length ≤ n * s.length := by
  induction s with
  | nil => simp
  | cons c s ih =>
    have first := bound c
    rw [List.flatMap_cons, List.length_append, List.length_cons, Nat.mul_succ]
    omega

/-- No character is written with more than ten. -/
theorem length_keyText_le (k : String) : (keyText k).length ≤ 10 * k.toList.length + 2 := by
  have doubled := length_flatMap_le (n := 2)
    (f := fun c => if c = Quorum.Quoted.apostrophe then [c, c] else [c])
    (fun c => by split <;> simp) k.toList
  have escaped := length_flatMap_le length_escape_le k.toList
  unfold keyText
  split
  · omega
  · simp only [List.length_cons, List.length_append, List.length_nil]
    omega
  · simp only [List.length_cons, List.length_append, List.length_nil]
    omega

end Yaml

end Quorum
