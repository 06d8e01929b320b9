import Mathlib.Data.List.SplitBy
import Quorum.Yaml.Writer

/-!
# What is written on a page

Every writer only adds to the text of a page. What is added depends on the column and on whether
anything but indentation stands on the line; indentation starts a new line as soon as something
does. A text is written run by run, and neighbouring runs are of different kinds.

## Main definitions

* `Yaml.IsGraphic`, `Yaml.IsPrinted` — the characters of written texts
* `Yaml.Page.Extends` — pages that continue another
* `Yaml.Kind` — spaces, line ends and other characters
* `Yaml.IsRun`, `Yaml.Alternate` — characters of one kind, and runs of different kinds

## Main results

* `Yaml.Page.indent_of_used` — indentation on a line that is in use
* `Yaml.Outline.extends_put` — whatever is written is added to the page
* `Yaml.alternate_runs`, `Yaml.flatten_runs` — the runs of a text
-/

namespace Quorum

namespace Yaml

section Characters

/-! ### Characters -/

/-- The visible characters that need no escape. -/
def IsGraphic (c : Char) : Prop := 0x20 < c.toNat ∧ c.toNat ≤ 0x7E

/-- The characters of written texts: visible characters, spaces and line feeds. -/
def IsPrinted (c : Char) : Prop := IsGraphic c ∨ c = ' ' ∨ c = '\n'

variable {c : Char}

theorem char_eq_iff {c d : Char} : c = d ↔ c.toNat = d.toNat :=
  ⟨congrArg Char.toNat, fun same => Char.toNat_inj.mp same⟩

theorem isPrinted_of_not_special (plain : isSpecial c = false) : IsPrinted c := by
  by_cases lineFeed : c = '\n'
  · exact .inr (.inr lineFeed)
  · by_cases space : c = ' '
    · exact .inr (.inl space)
    · refine .inl ?_
      have apart : c.toNat ≠ 0x20 := fun same => space (char_eq_iff.mpr same)
      simp [isSpecial, lineFeed] at plain
      exact ⟨by omega, plain.2⟩

namespace IsGraphic

theorem isBlank_eq (graphic : IsGraphic c) : isBlank c = false := by
  obtain ⟨low, -⟩ := graphic
  simp only [isBlank, Bool.or_eq_false_iff, beq_eq_false_iff_ne, ne_eq, char_eq_iff]
  exact ⟨by simp; omega, by simp; omega⟩

theorem isBreak_eq (graphic : IsGraphic c) : isBreak c = false := by
  obtain ⟨low, high⟩ := graphic
  simp only [isBreak, Bool.or_eq_false_iff, beq_eq_false_iff_ne, ne_eq, char_eq_iff]
  exact ⟨⟨⟨by simp; omega, by omega⟩, by omega⟩, by omega⟩

theorem ne_space (graphic : IsGraphic c) : c ≠ ' ' := by
  rintro rfl
  exact absurd graphic.1 (by decide)

theorem ne_lineFeed (graphic : IsGraphic c) : c ≠ '\n' := by
  rintro rfl
  exact absurd graphic.1 (by decide)

end IsGraphic

/-- Line feeds are the only line ends of written texts. -/
theorem IsPrinted.isBreak_iff (printed : IsPrinted c) : isBreak c = true ↔ c = '\n' := by
  rcases printed with graphic | rfl | rfl
  · simp [graphic.isBreak_eq, graphic.ne_lineFeed]
  · decide
  · decide

theorem IsPrinted.ne_byteOrderMark (printed : IsPrinted c) : c ≠ byteOrderMark := by
  rintro rfl
  rcases printed with graphic | space | lineFeed
  · exact absurd graphic.2 (by decide)
  · exact absurd space (by decide)
  · exact absurd lineFeed (by decide)

end Characters

namespace Page

variable {p : Page}

@[simp] theorem text_put (p : Page) (s : List Char) : (p.put s).text = p.text ++ s := by
  simp [text, put]

@[simp] theorem column_put (p : Page) (s : List Char) :
    (p.put s).column = p.column + s.length := rfl

@[simp] theorem fresh_put (p : Page) (s : List Char) : (p.put s).fresh = p.fresh := rfl

@[simp] theorem blank_put (p : Page) (s : List Char) : (p.put s).blank = p.blank := rfl

@[simp] theorem text_used (p : Page) : p.used.text = p.text := rfl

@[simp] theorem column_used (p : Page) : p.used.column = p.column := rfl

@[simp] theorem fresh_used (p : Page) : p.used.fresh = false := rfl

@[simp] theorem text_newLine (p : Page) : p.newLine.text = p.text ++ ['\n'] := by
  simp [text, newLine]

@[simp] theorem fresh_mark (p : Page) (s : List Char) (needed blank fresh : Bool) :
    (p.mark s needed blank fresh).fresh = (p.fresh && fresh) := rfl

@[simp] theorem blank_mark (p : Page) (s : List Char) (needed blank fresh : Bool) :
    (p.mark s needed blank fresh).blank = blank := rfl

@[simp] theorem column_mark (p : Page) (s : List Char) (needed blank fresh : Bool) :
    (p.mark s needed blank fresh).column =
      p.column + (if p.blank || !needed then s else ' ' :: s).length := rfl

@[simp] theorem text_mark (p : Page) (s : List Char) (needed blank fresh : Bool) :
    (p.mark s needed blank fresh).text =
      p.text ++ if p.blank || !needed then s else ' ' :: s := by
  simp [mark, text, put]

/-- Indentation of a new line: the page stands at the column, behind blanks only. -/
structure Starts (p : Page) (column : ℕ) : Prop where
  column : p.column = column
  blank : p.blank = true
  fresh : p.fresh = true

/-- What indentation adds to a line that is free up to a column. -/
theorem indent_of_free (column : ℕ) (fresh : p.fresh = true)
    (free : p.column < column ∨ p.column = column ∧ p.blank = true) :
    (p.indent column).text = p.text ++ List.replicate (column - p.column) ' ' ∧
      (p.indent column).Starts column := by
  have same : (!p.fresh || decide (column < p.column) || (p.column == column && !p.blank)) =
      false := by
    rcases free with before | ⟨here, blank⟩
    · have apart : p.column ≠ column := by omega
      simp [fresh, apart]
      omega
    · simp [fresh, here, blank]
  simp only [indent, same, Bool.false_eq_true, if_false]
  rcases free with before | ⟨here, blank⟩
  · rw [if_pos before]
    refine ⟨text_put p _, ?_, rfl, fresh⟩
    simp
    omega
  · rw [if_neg (by omega), here, Nat.sub_self]
    exact ⟨(List.append_nil _).symm, here, blank, fresh⟩

/-- Indentation of a line that is in use starts a new line. -/
theorem indent_of_used (column : ℕ) (used : p.fresh = false ∨ column < p.column) :
    (p.indent column).text = p.text ++ '\n' :: List.replicate column ' ' ∧
      (p.indent column).Starts column := by
  have free : p.newLine.column < column ∨ p.newLine.column = column ∧ p.newLine.blank = true :=
    column.eq_zero_or_pos.elim (fun zero => .inr ⟨zero.symm, rfl⟩) .inl
  obtain ⟨text, starts⟩ := indent_of_free column rfl free
  -- A line that is in use is ended first, and the new line is free.
  have ended : p.indent column = p.newLine.indent column := by
    have ends : (!p.fresh || decide (column < p.column) || (p.column == column && !p.blank)) =
        true := by
      rcases used with used | past
      · simp [used]
      · simp [past]
    have stays : (!p.newLine.fresh || decide (column < p.newLine.column) ||
        (p.newLine.column == column && !p.newLine.blank)) = false := by
      simp [newLine]
    simp only [indent, ends, stays, if_true, Bool.false_eq_true, if_false]
  rw [ended, text, text_newLine]
  refine ⟨?_, starts⟩
  simp [newLine]

/-- Line after line is ended. -/
theorem foldl_newLine (run : List Char) (p : Page) :
    (run.foldl (fun p _ => p.newLine) p.newLine).text =
        p.text ++ '\n' :: List.replicate run.length '\n' ∧
      (run.foldl (fun p _ => p.newLine) p.newLine).Starts 0 := by
  induction run generalizing p with
  | nil => exact ⟨text_newLine p, rfl, rfl, rfl⟩
  | cons c run ih =>
    obtain ⟨text, starts⟩ := ih p.newLine
    refine ⟨text.trans ?_, starts⟩
    simp [List.replicate_succ]

end Page

section Extending

/-! ### Adding to a page -/

/-- One page continues another. -/
def Page.Extends (p q : Page) : Prop := p.text <+: q.text

namespace Page.Extends

variable {p q r : Page}

@[refl] theorem refl (p : Page) : p.Extends p := List.prefix_rfl

theorem trans (first : p.Extends q) (second : q.Extends r) : p.Extends r :=
  List.IsPrefix.trans first second

theorem put (p : Page) (s : List Char) : p.Extends (p.put s) := ⟨s, (text_put p s).symm⟩

theorem newLine (p : Page) : p.Extends p.newLine := ⟨['\n'], (text_newLine p).symm⟩

theorem mark (p : Page) (s : List Char) (needed blank fresh : Bool) :
    p.Extends (p.mark s needed blank fresh) := ⟨_, (text_mark p s needed blank fresh).symm⟩

theorem indent (p : Page) (column : ℕ) : p.Extends (p.indent column) := by
  have spaces (q : Page) (column : ℕ) : q.Extends
      (if q.column < column then
        { q.put (List.replicate (column - q.column) ' ') with blank := true }
      else q) := by
    split
    · exact put q _
    · rfl
  unfold Page.indent
  split
  · exact (newLine p).trans (spaces _ column)
  · exact spaces p column

theorem foldl {α : Type} {f : Page → α → Page} (step : ∀ (p : Page) (a : α), p.Extends (f p a))
    (as : List α) (p : Page) : p.Extends (as.foldl f p) := by
  induction as generalizing p with
  | nil => rfl
  | cons a as ih => exact (step p a).trans (ih (f p a))

theorem putSpaces (split : Bool) (column : ℕ) (p : Page) (run : List Char) :
    p.Extends (putSpaces split column p run) := by
  unfold Yaml.putSpaces
  split
  · exact indent p column
  · exact put p run

theorem putPlain (split : Bool) (column : ℕ) (p : Page) (s : List Char) :
    p.Extends (putPlain split column p s) := by
  unfold Yaml.putPlain
  split
  · rfl
  · have lead : p.Extends (if p.blank then p else p.put [' ']).used := by
      split
      · exact refl p
      · exact put p [' ']
    refine lead.trans (foldl (fun p run => ?_) _ _)
    split
    · exact putSpaces split column p run
    · exact put p run

theorem putSingleRuns (split : Bool) (column : ℕ) (first : Bool) (p : Page)
    (rs : List (List Char)) : p.Extends (putSingleRuns split column first p rs) := by
  induction rs generalizing first p with
  | nil => rfl
  | cons run rest ih =>
    rw [Yaml.putSingleRuns]
    refine trans ?_ (ih false _)
    split
    · exact putSpaces _ column p run
    · split
      · exact (newLine p).trans ((foldl (fun p _ => newLine p) run _).trans (indent _ column))
      · exact put p _

theorem putSingle (split : Bool) (column : ℕ) (p : Page) (s : List Char) :
    p.Extends (putSingle split column p s) :=
  (mark p _ _ _ _).trans ((putSingleRuns split column true _ _).trans (mark _ _ _ _ _))

theorem breakDouble (column : ℕ) (p : Page) (next : Option Char) :
    p.Extends (breakDouble column p next) := by
  unfold Yaml.breakDouble
  have broken : p.Extends ((p.put ['\\']).indent column).used :=
    (put p ['\\']).trans (indent _ column)
  split
  · exact broken.trans (put _ _)
  · exact broken

theorem putDoubleChars (split : Bool) (column : ℕ) (started : Bool) (waiting : List Char) (p : Page)
    (s : List Char) : p.Extends (putDoubleChars split column started waiting p s) := by
  induction s generalizing started waiting p with
  | nil => exact put p _
  | cons c s ih =>
    unfold Yaml.putDoubleChars
    dsimp only
    split
    · next e _ =>
      have escaped := (put p waiting.reverse).trans (put _ e)
      refine escaped.trans (trans ?_ (ih true [] _))
      split
      · exact breakDouble column _ _
      · rfl
    · split
      · exact ((put p waiting.reverse).trans (breakDouble column _ _)).trans (ih true [c] _)
      · exact ih true (c :: waiting) p

theorem putDouble (split : Bool) (column : ℕ) (p : Page) (s : List Char) :
    p.Extends (putDouble split column p s) :=
  (mark p _ _ _ _).trans ((putDoubleChars split column false [] _ s).trans (mark _ _ _ _ _))

theorem putScalar (simpleKey : Bool) (column : ℕ) (p : Page) (t : Tag) (s : String) :
    p.Extends (putScalar simpleKey column p t s) := by
  unfold Yaml.putScalar
  split
  · exact putPlain _ column p _
  · exact putSingle _ column p _
  · exact putDouble _ column p _

theorem putKey (column : ℕ) (p : Page) (k : String) : p.Extends (putKey column p k) := by
  unfold Yaml.putKey
  refine (indent p column).trans ?_
  split
  · exact (putScalar _ _ _ _ _).trans (mark _ _ _ _ _)
  · exact (mark _ _ _ _ _).trans ((putScalar _ _ _ _ _).trans
      ((indent _ _).trans (mark _ _ _ _ _)))

end Page.Extends

namespace Outline

mutual

/-- Whatever is written is added to the page. -/
theorem extends_put (column : ℕ) (p : Page) : (v : Outline) → p.Extends (v.put column p)
  | .scalar t s => .putScalar _ _ p t s
  | .mapping [] => (Page.Extends.mark p _ _ _ _).trans (.mark _ _ _ _ _)
  | .mapping (e :: es) => extends_putEntries (column + 2) p (e :: es)

theorem extends_putEntries (column : ℕ) (p : Page) : (es : List (String × Outline)) →
    p.Extends (putEntries column p es)
  | [] => .refl p
  | (k, v) :: es => ((Page.Extends.putKey column p k).trans (extends_put column _ v)).trans
      (extends_putEntries column _ es)

end

end Outline

end Extending

section Runs

/-! ### Runs -/

/-- What a run of a text consists of. -/
inductive Kind where
  | space
  | line
  | word
deriving DecidableEq

/-- The kind of a character. -/
def Kind.of (c : Char) : Kind := if c = ' ' then .space else if isBreak c then .line else .word

theorem Kind.of_eq_of_iff {c d : Char} : Kind.of c = Kind.of d ↔
    ((c == ' ') == (d == ' ') && isBreak c == isBreak d) = true := by
  have line : isBreak ' ' = false := by decide
  by_cases first : c = ' ' <;> by_cases second : d = ' ' <;>
    cases third : isBreak c <;> cases fourth : isBreak d <;> simp_all [Kind.of]

/-- Characters of one kind. -/
structure IsRun (kind : Kind) (run : List Char) : Prop where
  nonempty : run ≠ []
  same : ∀ c ∈ run, Kind.of c = kind

/-- Runs that continue a text whose last run has a given kind: neighbours are of different kinds. -/
inductive Alternate : Option Kind → List (List Char) → Prop
  | nil {before : Option Kind} : Alternate before []
  | cons {before : Option Kind} {kind : Kind} {run : List Char} {rest : List (List Char)} :
    IsRun kind run → before ≠ some kind → Alternate (some kind) rest →
      Alternate before (run :: rest)

theorem Alternate.of_cons {before : Option Kind} {run : List Char} {rest : List (List Char)}
    (alternate : Alternate before (run :: rest)) :
    ∃ kind, IsRun kind run ∧ before ≠ some kind ∧ Alternate (some kind) rest := by
  cases alternate with
  | cons isRun differs rest => exact ⟨_, isRun, differs, rest⟩

/-- Neighbours of the same kind make a run. -/
theorem isRun_of_isChain {run : List Char} (nonempty : run ≠ [])
    (chain : run.IsChain fun c d => Kind.of c = Kind.of d) :
    IsRun (Kind.of (run.head nonempty)) run := by
  refine ⟨nonempty, ?_⟩
  induction run with
  | nil => exact absurd rfl nonempty
  | cons c run ih =>
    cases run with
    | nil => simp
    | cons d run =>
      obtain ⟨same, chain⟩ := List.isChain_cons_cons.mp chain
      have rest := ih (List.cons_ne_nil d run) chain
      simp only [List.head_cons] at rest ⊢
      exact List.forall_mem_cons.mpr ⟨rfl, fun e member => (rest e member).trans same.symm⟩

/-- A text is divided into runs of which neighbours are of different kinds. -/
theorem alternate_runs (s : List Char) : Alternate none (runs s) := by
  have nonempty : ∀ run ∈ runs s, run ≠ [] := fun run member empty =>
    List.nil_notMem_splitBy _ s (empty ▸ member)
  have uniform : ∀ run ∈ runs s, run.IsChain fun c d => Kind.of c = Kind.of d :=
    fun run member => (List.isChain_of_mem_splitBy member).imp
      fun c d same => Kind.of_eq_of_iff.mpr same
  have apart := List.isChain_getLast_head_splitBy
    (fun c d => (c == ' ') == (d == ' ') && isBreak c == isBreak d) s
  change (runs s).IsChain _ at apart
  suffices general : ∀ before,
      (∀ run ∈ (runs s).head?, ∀ c ∈ run.head?, before ≠ some (Kind.of c)) →
        Alternate before (runs s) from general none (by simp)
  generalize runs s = rs at nonempty uniform apart
  induction rs with
  | nil => exact fun before _ => .nil
  | cons run rest ih =>
    intro before differs
    have filled := nonempty run List.mem_cons_self
    have isRun := isRun_of_isChain filled (uniform run List.mem_cons_self)
    refine .cons isRun (differs run rfl _ (List.head_mem_head? filled)) ?_
    refine ih (fun r member => nonempty r (List.mem_cons_of_mem run member))
      (fun r member => uniform r (List.mem_cons_of_mem run member)) apart.tail _ ?_
    rintro next head c first same
    obtain ⟨rest', rfl⟩ := List.head?_eq_some_iff.mp head
    obtain ⟨other, -⟩ := List.isChain_cons_cons.mp apart
    obtain ⟨_, next_filled, other⟩ := other
    have last := isRun.same _ (List.getLast_mem filled)
    rw [List.head?_eq_some_head next_filled] at first
    have equal : Kind.of (run.getLast filled) = Kind.of (next.head next_filled) := by
      rw [last, Option.some.inj first]
      exact Option.some.inj same
    rw [Kind.of_eq_of_iff.mp equal] at other
    cases other

theorem flatten_runs (s : List Char) : (runs s).flatten = s := List.flatten_splitBy _ s

variable {run : List Char}

theorem IsRun.eq_replicate {c : Char} (isRun : IsRun (Kind.of c) run)
    (only : ∀ d ∈ run, Kind.of d = Kind.of c → d = c) : ∃ n, run = List.replicate (n + 1) c := by
  obtain ⟨n, length⟩ := Nat.exists_eq_succ_of_ne_zero
    (List.length_pos_iff.mpr isRun.nonempty).ne'
  exact ⟨n, List.eq_replicate_iff.mpr ⟨length, fun d member => only d member (isRun.same d member)⟩⟩

/-- A run of spaces. -/
theorem IsRun.eq_spaces (isRun : IsRun .space run) : ∃ n, run = List.replicate (n + 1) ' ' := by
  refine IsRun.eq_replicate (c := ' ') isRun fun d _ same => ?_
  by_contra other
  simp only [Kind.of, other, if_false] at same
  split at same <;> cases same

/-- A run of line ends without characters that need an escape. -/
theorem IsRun.eq_lineFeeds (isRun : IsRun .line run) (plain : ∀ c ∈ run, isSpecial c = false) :
    ∃ n, run = List.replicate (n + 1) '\n' := by
  refine IsRun.eq_replicate (c := '\n') isRun fun d member same => ?_
  have breaks : isBreak d = true := by
    by_contra other
    simp only [Kind.of, other] at same
    split at same <;> cases same
  exact (isPrinted_of_not_special (plain d member)).isBreak_iff.mp breaks

/-- A run of other characters without ones that need an escape. -/
theorem IsRun.isGraphic (isRun : IsRun .word run) (plain : ∀ c ∈ run, isSpecial c = false) :
    ∀ c ∈ run, IsGraphic c := by
  intro c member
  have same := isRun.same c member
  rcases isPrinted_of_not_special (plain c member) with graphic | rfl | rfl
  · exact graphic
  · cases same
  · cases same

end Runs

end Yaml

end Quorum
