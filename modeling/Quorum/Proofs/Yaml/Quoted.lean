import Mathlib.Algebra.Order.Group.Nat
import Quorum.Proofs.Yaml.Page
import Quorum.Yaml.Scalar

/-!
# Quoted scalars are read back

Between apostrophes a single line end stands for a space, and of several the first is dropped; so a
line can be broken at a single space, and every line end of the text is written once more. Between
double quotes everything but visible characters and spaces is escaped, and a line is broken by an
escaped line end, behind which blanks do not count. What the writers add to a page is described by
two relations between a text and its written form, and the readers follow them backwards.

## Main definitions

* `Yaml.Solid` — texts that start with neither blanks nor line ends
* `Yaml.Single`, `Yaml.Double` — the written forms of a text between quotes

## Main results

* `Yaml.exists_single`, `Yaml.exists_double` — what is written between quotes
* `Yaml.Single.read_eq`, `Yaml.Double.read_eq` — it is read back
-/

namespace Quorum

namespace Yaml

/-- Texts that start with neither a blank nor a line end. -/
def Solid (s : List Char) : Prop := ∀ c ∈ s.head?, isBlank c = false ∧ isBreak c = false

theorem solid_nil : Solid [] := by simp [Solid]

theorem solid_cons_of_isGraphic {c : Char} (graphic : IsGraphic c) (s : List Char) :
    Solid (c :: s) := by
  simpa [Solid] using ⟨graphic.isBlank_eq, graphic.isBreak_eq⟩

theorem Solid.append_cons {s t : List Char} {c : Char} (solid : Solid s) (graphic : IsGraphic c) :
    Solid (s ++ c :: t) := by
  cases s with
  | nil => exact solid_cons_of_isGraphic graphic t
  | cons d s => simpa [Solid] using solid

/-- Blanks in front of something solid. -/
theorem Solid.span_blanks {s : List Char} (solid : Solid s) (n : ℕ) :
    (List.replicate n ' ' ++ s).takeWhile isBlank = List.replicate n ' ' ∧
      (List.replicate n ' ' ++ s).dropWhile isBlank = s := by
  have blanks : ∀ c ∈ List.replicate n ' ', isBlank c = true := by
    intro c member
    rw [List.eq_of_mem_replicate member]
    rfl
  have rest : s.takeWhile isBlank = [] ∧ s.dropWhile isBlank = s := by
    cases s with
    | nil => exact ⟨rfl, rfl⟩
    | cons c s => simp [(solid c rfl).1]
  rw [List.takeWhile_append_of_pos blanks, List.dropWhile_append_of_pos blanks, rest.1, rest.2,
    List.append_nil]
  exact ⟨rfl, rfl⟩

/-- No marker starts with a blank or a line end. -/
theorem isMarker_of_white {c : Char} (white : c = ' ' ∨ c = '\n') (s : List Char) :
    isMarker (c :: s) = false := by
  rcases white with rfl | rfl <;> simp [isMarker, isTriple]

variable {column : ℕ}

section LineEnds

/-! ### Line ends -/

/-- Indentation behind line ends is dropped. -/
theorem Quoted.emptyLines_eq {s : List Char} (solid : Solid s) (indented : 0 < column) (n : ℕ)
    {fuel : ℕ} (enough : n < fuel) :
    Quoted.emptyLines fuel (List.replicate n '\n' ++ (List.replicate column ' ' ++ s)) =
      .ok (List.replicate n '\n', s) := by
  induction n generalizing fuel with
  | zero =>
    obtain ⟨fuel, rfl⟩ := Nat.exists_eq_succ_of_ne_zero enough.ne'
    obtain ⟨k, rfl⟩ := Nat.exists_eq_succ_of_ne_zero indented.ne'
    have marker : isMarker (List.replicate (k + 1) ' ' ++ s) = false :=
      isMarker_of_white (.inl rfl) _
    obtain ⟨-, dropped⟩ := solid.span_blanks (k + 1)
    simp only [List.replicate_zero, List.nil_append, Quoted.emptyLines, marker, Bool.false_eq_true,
      if_false, dropped]
    cases s with
    | nil => rfl
    | cons c s => simp [(solid c rfl).2]
  | succ n ih =>
    obtain ⟨fuel, rfl⟩ := Nat.exists_eq_succ_of_ne_zero (by omega : fuel ≠ 0)
    have marker (t : List Char) : isMarker ('\n' :: t) = false := isMarker_of_white (.inr rfl) _
    have blank : isBlank '\n' = false := rfl
    have breaks : isBreak '\n' = true := rfl
    have kept : keptBreak '\n' = '\n' := rfl
    simp only [List.replicate_succ, List.cons_append, Quoted.emptyLines, marker, Bool.false_eq_true,
      if_false, List.dropWhile_cons, blank, breaks, if_true, ih (by omega : n < fuel), kept]
    rfl

/-- Blanks inside quotes are kept. -/
theorem Quoted.space_eq {s : List Char} (solid : Solid s) (nonempty : s ≠ []) (n : ℕ) :
    Quoted.space (List.replicate n ' ' ++ s) = .ok (List.replicate n ' ', s) := by
  obtain ⟨taken, dropped⟩ := solid.span_blanks n
  obtain ⟨c, s, rfl⟩ := List.exists_cons_of_ne_nil nonempty
  rw [Quoted.space, taken, dropped]
  simp [(solid c rfl).2]

/-- Line ends inside quotes are folded. -/
theorem Quoted.space_lineFeeds {s : List Char} (solid : Solid s) (indented : 0 < column) (n : ℕ) :
    Quoted.space ('\n' :: (List.replicate n '\n' ++ (List.replicate column ' ' ++ s))) =
      .ok (if n = 0 then [' '] else List.replicate n '\n', s) := by
  have blank : isBlank '\n' = false := rfl
  have breaks : isBreak '\n' = true := rfl
  have enough : n < (List.replicate n '\n' ++ (List.replicate column ' ' ++ s)).length + 1 := by
    rw [List.length_append, List.length_replicate]
    omega
  have empty := Quoted.emptyLines_eq solid indented n enough
  simp only [Quoted.space, List.dropWhile_cons, blank, Bool.false_eq_true, if_false, breaks,
    if_true,
    empty]
  cases n with
  | zero => rfl
  | succ n => rfl

/-- White space and what follows it are read one after the other. -/
theorem Quoted.body_white {double : Bool} {fuel : ℕ} {c : Char} {r t after s rest : List Char}
    (white : (isBlank c || isBreak c) = true) (spaced : Quoted.space (c :: r) = .ok (t, after))
    (read : Quoted.body double fuel after = .ok (s, rest)) :
    Quoted.body double (fuel + 1) (c :: r) = .ok (t ++ s, rest) := by
  unfold Quoted.body
  simp only [white, if_true, spaced, bind, Except.bind, read]

end LineEnds

section Single

/-! ### Between apostrophes -/

/-- The written forms of a text between apostrophes: apostrophes are doubled, a single space may
become a line end, and line ends are written once more. -/
inductive Single (column : ℕ) : List Char → List Char → Prop
  | nil : Single column [] []
  | char {c : Char} {s t : List Char} (graphic : IsGraphic c)
      (other : c ≠ Quorum.Quoted.apostrophe) :
    Single column s t → Single column (c :: s) (c :: t)
  | apostrophe {s t : List Char} : Single column s t →
    Single column (Quorum.Quoted.apostrophe :: s)
      (Quorum.Quoted.apostrophe :: Quorum.Quoted.apostrophe :: t)
  | spaces {s t : List Char} (n : ℕ) (solid : Solid t) : Single column s t →
    Single column (List.replicate (n + 1) ' ' ++ s) (List.replicate (n + 1) ' ' ++ t)
  | wrap {s t : List Char} (solid : Solid t) : Single column s t →
    Single column (' ' :: s) ('\n' :: (List.replicate column ' ' ++ t))
  | lines {s t : List Char} (n : ℕ) (solid : Solid t) : Single column s t →
    Single column (List.replicate (n + 1) '\n' ++ s)
      ('\n' :: (List.replicate (n + 1) '\n' ++ (List.replicate column ' ' ++ t)))

namespace Single

variable {s t rest : List Char}

theorem apostrophe_isGraphic : IsGraphic Quorum.Quoted.apostrophe := by
  unfold IsGraphic
  decide

theorem body_eq (written : Single column s t) (indented : 0 < column)
    (closed : rest.head? ≠ some Quorum.Quoted.apostrophe) {fuel : ℕ} (enough : t.length < fuel) :
    Quoted.body false fuel (t ++ Quorum.Quoted.apostrophe :: rest) = .ok (s, rest) := by
  induction written generalizing fuel with
  | nil =>
    obtain ⟨fuel, rfl⟩ := Nat.exists_eq_succ_of_ne_zero enough.ne'
    have white :
        (isBlank Quorum.Quoted.apostrophe || isBreak Quorum.Quoted.apostrophe) = false := rfl
    unfold Quoted.body
    simp only [List.nil_append, white, Bool.false_eq_true, if_false]
    cases rest with
    | nil => simp
    | cons d rest =>
      have other : d ≠ Quorum.Quoted.apostrophe := by simpa using closed
      simp [other]
  | @char c s t graphic other written ih =>
    obtain ⟨fuel, rfl⟩ := Nat.exists_eq_succ_of_ne_zero (by omega : fuel ≠ 0)
    have read : Quoted.body false fuel (t ++ Quorum.Quoted.apostrophe :: rest) = .ok (s, rest) :=
      ih (by simpa using enough)
    unfold Quoted.body
    simp only [List.cons_append, graphic.isBlank_eq, graphic.isBreak_eq, Bool.or_self,
      Bool.false_eq_true, if_false, if_neg other, read]
    rfl
  | @apostrophe s t written ih =>
    obtain ⟨fuel, rfl⟩ := Nat.exists_eq_succ_of_ne_zero (by omega : fuel ≠ 0)
    have read : Quoted.body false fuel (t ++ Quorum.Quoted.apostrophe :: rest) = .ok (s, rest) :=
      ih (by simp at enough; omega)
    have white :
        (isBlank Quorum.Quoted.apostrophe || isBreak Quorum.Quoted.apostrophe) = false := rfl
    unfold Quoted.body
    simp only [List.cons_append, white, Bool.false_eq_true, if_false, if_true, read]
    rfl
  | @spaces s t n solid written ih =>
    obtain ⟨fuel, rfl⟩ := Nat.exists_eq_succ_of_ne_zero (by omega : fuel ≠ 0)
    have kept :=
      Quoted.space_eq (solid.append_cons (t := rest) apostrophe_isGraphic) (by simp) (n + 1)
    rw [List.append_assoc]
    exact Quoted.body_white rfl kept (ih (by simp at enough; omega))
  | @wrap s t solid written ih =>
    obtain ⟨fuel, rfl⟩ := Nat.exists_eq_succ_of_ne_zero (by omega : fuel ≠ 0)
    have folded :=
      Quoted.space_lineFeeds (solid.append_cons (t := rest) apostrophe_isGraphic) indented 0
    rw [List.cons_append, List.append_assoc]
    exact Quoted.body_white rfl folded (ih (by simp at enough; omega))
  | @lines s t n solid written ih =>
    obtain ⟨fuel, rfl⟩ := Nat.exists_eq_succ_of_ne_zero (by omega : fuel ≠ 0)
    have folded :=
      Quoted.space_lineFeeds (solid.append_cons (t := rest) apostrophe_isGraphic) indented (n + 1)
    rw [List.cons_append, List.append_assoc, List.append_assoc]
    exact Quoted.body_white rfl folded (ih (by simp at enough; omega))

/-- A text between apostrophes is read back. -/
theorem read_eq (written : Single column s t) (indented : 0 < column)
    (closed : rest.head? ≠ some Quorum.Quoted.apostrophe) :
    Quoted.read false (t ++ Quorum.Quoted.apostrophe :: rest) = .ok (s, rest) :=
  written.body_eq indented closed (by rw [List.length_append, List.length_cons]; omega)

/-- Everything between apostrophes is printed. -/
theorem isPrinted (written : Single column s t) : ∀ c ∈ t, IsPrinted c := by
  have spaces (n : ℕ) : ∀ c ∈ List.replicate n ' ', IsPrinted c := fun c member =>
    .inr (.inl (List.eq_of_mem_replicate member))
  have lines (n : ℕ) : ∀ c ∈ List.replicate n '\n', IsPrinted c := fun c member =>
    .inr (.inr (List.eq_of_mem_replicate member))
  induction written with
  | nil => simp
  | char graphic _ _ ih => exact List.forall_mem_cons.mpr ⟨.inl graphic, ih⟩
  | apostrophe _ ih =>
    exact List.forall_mem_cons.mpr ⟨.inl apostrophe_isGraphic,
      List.forall_mem_cons.mpr ⟨.inl apostrophe_isGraphic, ih⟩⟩
  | spaces n _ _ ih => exact List.forall_mem_append.mpr ⟨spaces _, ih⟩
  | wrap _ _ ih =>
    exact List.forall_mem_cons.mpr ⟨.inr (.inr rfl), List.forall_mem_append.mpr ⟨spaces _, ih⟩⟩
  | lines n _ _ ih =>
    exact List.forall_mem_cons.mpr ⟨.inr (.inr rfl), List.forall_mem_append.mpr
      ⟨lines _, List.forall_mem_append.mpr ⟨spaces _, ih⟩⟩⟩

/-- A run of visible characters, with its apostrophes doubled. -/
theorem word {run : List Char} (graphic : ∀ c ∈ run, IsGraphic c) (written : Single column s t) :
    Single column (run ++ s)
      (run.flatMap (fun c => if c = Quorum.Quoted.apostrophe then [c, c] else [c]) ++ t) := by
  induction run with
  | nil => exact written
  | cons c run ih =>
    obtain ⟨first, others⟩ := List.forall_mem_cons.mp graphic
    rw [List.flatMap_cons, List.append_assoc, List.cons_append]
    split
    · next same =>
      subst same
      exact .apostrophe (ih others)
    · next other => exact .char first other (ih others)

theorem mem_of_mem_doubled {run : List Char} {c : Char} (member :
    c ∈ run.flatMap fun c => if c = Quorum.Quoted.apostrophe then [c, c] else [c]) : c ∈ run := by
  obtain ⟨d, inRun, written⟩ := List.mem_flatMap.mp member
  obtain rfl : c = d := by
    split at written <;> simpa using written
  exact inRun

/-- On one line only apostrophes are changed. -/
theorem eq_of_not_mem (written : Single column s t) (line : '\n' ∉ t) :
    t = s.flatMap fun c => if c = Quorum.Quoted.apostrophe then [c, c] else [c] := by
  induction written with
  | nil => rfl
  | char _ other _ ih => simp [other, ← ih (by simpa using (not_or.mp (by simpa using line)).2)]
  | apostrophe _ ih => simp [← ih (by simpa [Quorum.Quoted.apostrophe] using line)]
  | spaces n _ _ ih =>
    have apart : ' ' ≠ Quorum.Quoted.apostrophe := by decide
    have kept : (List.replicate (n + 1) ' ').flatMap
        (fun c => if c = Quorum.Quoted.apostrophe then [c, c] else [c]) =
          List.replicate (n + 1) ' ' := by
      induction n + 1 with
      | zero => rfl
      | succ n ih => simp [List.replicate_succ, apart, ih]
    rw [List.flatMap_append, kept, ← ih fun member => line (List.mem_append_right _ member)]
  | wrap => simp at line
  | lines => simp at line

end Single

/-- What a text consists of that can be written between apostrophes. -/
theorem singleFits_iff {s : List Char} :
    singleFits s = true ↔ (∀ c ∈ s, isSpecial c = false) ∧ mixesSpaces s = false := by
  simp [singleFits]

/-- A run of spaces behind a text, and what follows it. -/
theorem mixesSpaces_append {s t : List Char} (apart : mixesSpaces (s ++ t) = false) :
    mixesSpaces t = false := by
  induction s with
  | nil => exact apart
  | cons c s ih =>
    refine ih ?_
    cases rest : s ++ t with
    | nil => rfl
    | cons d r =>
      rw [List.cons_append, rest, mixesSpaces] at apart
      simp only [Bool.or_eq_false_iff] at apart
      exact apart.2

/-- Behind a run of spaces or line ends there is a run of other characters. -/
theorem isRun_word_of_white {kind : Kind} {run : List Char} {rest : List (List Char)}
    (isRun : IsRun kind run) (white : kind ≠ .word) (alternate : Alternate (some kind) rest)
    (plain : ∀ c ∈ (run :: rest).flatten, isSpecial c = false)
    (apart : mixesSpaces (run :: rest).flatten = false) :
    ∀ next ∈ rest.head?, IsRun .word next := by
  intro next head
  obtain ⟨rest', rfl⟩ := List.head?_eq_some_iff.mp head
  obtain ⟨kind', isRun', other, -⟩ := alternate.of_cons
  have plain_run : ∀ c ∈ run, isSpecial c = false := fun c member => plain c (by simp [member])
  have plain_next : ∀ c ∈ next, isSpecial c = false := fun c member => plain c (by simp [member])
  have neighbours {c d : Char} {n m : ℕ} (left : run = List.replicate (n + 1) c)
      (right : next = List.replicate (m + 1) d) :
      mixesSpaces (c :: d :: (List.replicate m d ++ rest'.flatten)) = false := by
    rw [List.flatten_cons, List.flatten_cons, left, right, List.replicate_succ',
      List.append_assoc] at apart
    exact mixesSpaces_append apart
  cases kind with
  | word => exact absurd rfl white
  | space =>
    cases kind' with
    | word => exact isRun'
    | space => exact absurd rfl other
    | line =>
      obtain ⟨n, left⟩ := isRun.eq_spaces
      obtain ⟨m, right⟩ := isRun'.eq_lineFeeds plain_next
      cases (neighbours left right).symm.trans rfl
  | line =>
    cases kind' with
    | word => exact isRun'
    | line => exact absurd rfl other
    | space =>
      obtain ⟨n, left⟩ := isRun.eq_lineFeeds plain_run
      obtain ⟨m, right⟩ := isRun'.eq_spaces
      cases (neighbours left right).symm.trans rfl

/-- The runs of a text between apostrophes, written on a page. -/
theorem exists_putSingleRuns (split : Bool) {before : Option Kind} {rs : List (List Char)}
    (alternate : Alternate before rs) (plain : ∀ c ∈ rs.flatten, isSpecial c = false)
    (apart : mixesSpaces rs.flatten = false) (indented : 0 < column) (narrow : column ≤ lineWidth)
    (first : Bool) (p : Page) :
    ∃ t, Single column rs.flatten t ∧
      (putSingleRuns split column first p rs).text = p.text ++ t ∧
      ((∀ run ∈ rs.head?, IsRun .word run) → Solid t) ∧
      (split = false → '\n' ∉ rs.flatten → '\n' ∉ t) := by
  induction alternate generalizing first p with
  | nil => exact ⟨[], .nil, (List.append_nil _).symm, fun _ => solid_nil, fun _ _ => by simp⟩
  | @cons before kind run rest isRun differs alternate ih =>
    have plain_run : ∀ c ∈ run, isSpecial c = false := fun c member => plain c (by simp [member])
    have plain_rest : ∀ c ∈ rest.flatten, isSpecial c = false :=
      fun c member => plain c (List.mem_append_right run member)
    have read := ih plain_rest (mixesSpaces_append apart) false
    rw [putSingleRuns, List.flatten_cons]
    cases kind with
    | word =>
      have graphic := isRun.isGraphic plain_run
      obtain ⟨d, run', shape⟩ := List.exists_cons_of_ne_nil isRun.nonempty
      have visible := graphic d (shape ▸ List.mem_cons_self)
      have head : run.head? = some d := by rw [shape, List.head?_cons]
      obtain ⟨t, written, text, -, lines⟩ := read
        (p.put (run.flatMap fun c => if c = Quorum.Quoted.apostrophe then [c, c] else [c]))
      refine ⟨_, .word graphic written, ?_, fun _ => ?_, fun unsplit once => ?_⟩
      · simp only [head, Option.some.injEq, visible.ne_space, if_false, Option.any_some,
          visible.isBreak_eq, Bool.false_eq_true, text, Page.text_put, List.append_assoc]
      · rw [shape, List.flatMap_cons]
        split <;> exact solid_cons_of_isGraphic visible _
      · rw [List.mem_append, not_or] at once ⊢
        exact ⟨fun member => once.1 (Single.mem_of_mem_doubled member), lines unsplit once.2⟩
    | space =>
      have next := isRun_word_of_white isRun (by decide) alternate plain apart
      obtain ⟨n, rfl⟩ := isRun.eq_spaces
      have head : (List.replicate (n + 1) ' ').head? = some ' ' := rfl
      have noWord : (∀ run ∈ (List.replicate (n + 1) ' ' :: rest).head?, IsRun .word run) → False :=
        fun word => absurd ((word _ rfl).same ' ' (by simp)) (by decide)
      rw [if_pos head]
      unfold putSpaces
      split
      · next wraps =>
        obtain ⟨text, -⟩ := Page.indent_of_used (p := p) column
          (.inr (narrow.trans_lt wraps.2.1))
        obtain ⟨t, written, text', solid, -⟩ := read (p.indent column)
        obtain rfl : n = 0 := by simpa using wraps.1
        refine ⟨_, .wrap (solid next) written, ?_, fun word => (noWord word).elim,
          fun unsplit => ?_⟩
        · simp [text', text]
        · simp [unsplit] at wraps
      · obtain ⟨t, written, text, solid, lines⟩ := read (p.put (List.replicate (n + 1) ' '))
        refine ⟨_, .spaces n (solid next) written, ?_, fun word => (noWord word).elim,
          fun unsplit once => ?_⟩
        · simp [text]
        · rw [List.mem_append, not_or] at once ⊢
          exact ⟨by simp, lines unsplit once.2⟩
    | line =>
      have next := isRun_word_of_white isRun (by decide) alternate plain apart
      obtain ⟨n, rfl⟩ := isRun.eq_lineFeeds plain_run
      obtain ⟨text, starts⟩ := Page.foldl_newLine (List.replicate (n + 1) '\n') p
      obtain ⟨text', -⟩ := Page.indent_of_free column starts.fresh
        (.inl (starts.column ▸ indented))
      obtain ⟨t, written, text'', solid, -⟩ := read
        (((List.replicate (n + 1) '\n').foldl (fun p _ => p.newLine) p.newLine).indent column)
      refine ⟨_, .lines n (solid next) written, ?_, fun word => ?_, fun _ once => ?_⟩
      · have head : (List.replicate (n + 1) '\n').head? = some '\n' := rfl
        have breaks : isBreak '\n' = true := rfl
        rw [if_neg (by simp [head]), if_pos (by simp [head, breaks]), text'', text', text,
          starts.column]
        simp
      · exact absurd ((word _ rfl).same '\n' (by simp)) (by decide)
      · simp at once

/-- What is written for a text between apostrophes, the quotes apart. -/
theorem exists_single (split : Bool) {s : List Char} (fits : singleFits s = true)
    (indented : 0 < column) (narrow : column ≤ lineWidth) (p : Page) :
    ∃ t, Single column s t ∧
      (putSingle split column p s).text = p.text ++ (if p.blank then [] else [' ']) ++
        Quorum.Quoted.apostrophe :: (t ++ [Quorum.Quoted.apostrophe]) ∧
      (putSingle split column p s).fresh = false ∧
      (split = false → '\n' ∉ s → '\n' ∉ t) := by
  obtain ⟨plain, apart⟩ := singleFits_iff.mp fits
  have flat := flatten_runs s
  obtain ⟨t, written, text, -, lines⟩ := exists_putSingleRuns split (alternate_runs s)
    (by rwa [flat]) (by rwa [flat]) indented narrow true
    (p.mark [Quorum.Quoted.apostrophe] true false false)
  rw [flat] at written lines
  refine ⟨t, written, ?_, by simp [putSingle], lines⟩
  rw [putSingle, Page.text_mark, text, Page.text_mark]
  cases p.blank <;> simp

end Single

section Double

/-! ### Between double quotes -/

/-- The written forms of a text between double quotes: what is neither visible nor a space is
escaped, and a line may be broken by an escaped line end. -/
inductive Double (column : ℕ) : List Char → List Char → Prop
  | nil : Double column [] []
  | char {c : Char} {s t : List Char} (graphic : IsGraphic c) (quote : c ≠ '"')
      (backslash : c ≠ '\\') :
    Double column s t → Double column (c :: s) (c :: t)
  | space {s t : List Char} : Double column s t → Double column (' ' :: s) (' ' :: t)
  | escape {c : Char} {e s t : List Char} (escaped : escapeText? c = some e) :
    Double column s t → Double column (c :: s) (e ++ t)
  | escapedSpace {s t : List Char} : Double column s t →
    Double column (' ' :: s) ('\\' :: ' ' :: t)
  | wrap {s t : List Char} (unblank : t.head? ≠ some ' ') : Double column s t →
    Double column s ('\\' :: '\n' :: (List.replicate column ' ' ++ t))

/-- A character that needs no escape between double quotes. -/
theorem of_escapeText?_eq_none {c : Char} (plain : escapeText? c = none) :
    (c = ' ' ∨ IsGraphic c) ∧ c ≠ '"' ∧ c ≠ '\\' := by
  unfold escapeText? at plain
  split at plain
  · next visible =>
    refine ⟨?_, visible.2.2.1, visible.2.2.2⟩
    rcases visible.1.lt_or_eq with graphic | space
    · exact .inr ⟨graphic, visible.2.1⟩
    · exact .inl (char_eq_iff.mpr space.symm)
  · split at plain <;> cases plain

theorem toNat_le (c : Char) : c.toNat ≤ 0x10FFFF := by
  have valid : c.toNat.isValidChar := c.valid
  rcases valid with low | high
  · omega
  · omega

theorem length_hexDigits (width n : ℕ) : (Quorum.Quoted.hexDigits width n).length = width := by
  induction width generalizing n with
  | zero => rfl
  | succ width ih => simp [Quorum.Quoted.hexDigits, ih]

/-- Upper-case digits are read as the number that they write. -/
theorem mapM_hexDigits {width n : ℕ} (short : n < 16 ^ width) :
    ∃ ds, ((Quorum.Quoted.hexDigits width n).map Char.toUpper).mapM Bytes.hexValue? = some ds ∧
      ds.foldl (fun n d => 16 * n + d) 0 = n := by
  induction width generalizing n with
  | zero =>
    obtain rfl : n = 0 := by simpa using short
    exact ⟨[], rfl, rfl⟩
  | succ width ih =>
    obtain ⟨ds, read, value⟩ := ih (n := n / 16) (by rw [Nat.pow_succ] at short; omega)
    have digit : ∀ d < 16, Bytes.hexValue? (Bytes.hexDigit d).toUpper = some d := by decide
    refine ⟨ds ++ [n % 16], ?_, ?_⟩
    · rw [Quorum.Quoted.hexDigits, List.map_append, List.mapM_append, read]
      simp [digit (n % 16) (Nat.mod_lt _ (by decide))]
    · rw [List.foldl_append, value]
      simp only [List.foldl_cons, List.foldl_nil]
      omega

/-- The digits of a hexadecimal escape are visible. -/
theorem isGraphic_of_mem_hexDigits {width n : ℕ} {c : Char}
    (member : c ∈ (Quorum.Quoted.hexDigits width n).map Char.toUpper) : IsGraphic c := by
  obtain ⟨d, digit, rfl⟩ := List.mem_map.mp member
  have all : ∀ d < 16, 0x20 < (Bytes.hexDigit d).toUpper.toNat ∧
      (Bytes.hexDigit d).toUpper.toNat ≤ 0x7E := by decide
  clear member
  induction width generalizing n with
  | zero => simp [Quorum.Quoted.hexDigits] at digit
  | succ width ih =>
    rw [Quorum.Quoted.hexDigits, List.mem_append, List.mem_singleton] at digit
    rcases digit with earlier | rfl
    · exact ih earlier
    · exact all _ (Nat.mod_lt _ (by decide))

/-- A hexadecimal escape is read as the character that it was written for. -/
theorem escape_hexDigits {c : Char} (letter : Char) (width : ℕ)
    (named : Quoted.escaped? letter = none) (wide : Quoted.escapeWidth? letter = some width)
    (short : c.toNat < 16 ^ width) (rest : List Char) :
    Quoted.escape (letter :: (Quorum.Quoted.hexDigits width c.toNat).map Char.toUpper ++ rest) =
      .ok ([c], rest) := by
  obtain ⟨ds, read, value⟩ := mapM_hexDigits short
  have length : ((Quorum.Quoted.hexDigits width c.toNat).map Char.toUpper).length = width := by
    rw [List.length_map, length_hexDigits]
  have valid : c.toNat.isValidChar := c.valid
  have last := toNat_le c
  have numbered : Quoted.numbered ((Quorum.Quoted.hexDigits width c.toNat).map Char.toUpper) =
      .ok c := by
    simp only [Quoted.numbered, read, value]
    rw [if_neg (by simp; omega), if_neg (by omega), if_pos valid, Char.ofNat_toNat]
  simp only [List.cons_append, Quoted.escape, named, wide]
  rw [if_neg (by simp [length]), List.take_left' length, List.drop_left' length, numbered]
  rfl

theorem backslash_isGraphic : IsGraphic '\\' := by
  unfold IsGraphic
  decide

/-- A one-letter escape is read as the character that it was written for. -/
theorem escapeLetter?_eq_some {c letter : Char} (named : escapeLetter? c = some letter) :
    Quoted.escaped? letter = some c ∧ IsGraphic letter := by
  have code (n : ℕ) (same : c.toNat = n) : c = Char.ofNat n := same ▸ (Char.ofNat_toNat c).symm
  unfold escapeLetter? at named
  split at named
  case h_16 => cases named
  all_goals
    next same =>
      cases named
      rw [code _ same]
      unfold IsGraphic
      decide

/-- An escape is a backslash with visible characters behind it, and is read back. -/
theorem escapeText?_eq_some {c : Char} {e : List Char} (escaped : escapeText? c = some e) :
    ∃ e', e = '\\' :: e' ∧ (∀ d ∈ e, IsGraphic d) ∧
      ∀ rest, Quoted.escape (e' ++ rest) = .ok ([c], rest) := by
  have visible (letter : Char) (width : ℕ) (graphic : IsGraphic letter) :
      ∀ d ∈ '\\' :: letter :: (Quorum.Quoted.hexDigits width c.toNat).map Char.toUpper,
        IsGraphic d := by
    exact List.forall_mem_cons.mpr ⟨backslash_isGraphic, List.forall_mem_cons.mpr ⟨graphic,
      fun d member => isGraphic_of_mem_hexDigits member⟩⟩
  unfold escapeText? at escaped
  split at escaped
  · cases escaped
  · split at escaped
    · next letter named =>
      cases escaped
      obtain ⟨read, graphic⟩ := escapeLetter?_eq_some named
      refine ⟨_, rfl, by simpa using ⟨backslash_isGraphic, graphic⟩, fun rest => ?_⟩
      simp [Quoted.escape, read]
    · cases escaped
      split
      · next small =>
        exact ⟨_, rfl, visible 'x' 2 (by unfold IsGraphic; decide),
          escape_hexDigits 'x' 2 rfl rfl small⟩
      · split
        · next small =>
          exact ⟨_, rfl, visible 'u' 4 (by unfold IsGraphic; decide),
            escape_hexDigits 'u' 4 rfl rfl small⟩
        · have small : c.toNat < 16 ^ 8 := (toNat_le c).trans_lt (by decide)
          exact ⟨_, rfl, visible 'U' 8 (by unfold IsGraphic; decide),
            escape_hexDigits 'U' 8 rfl rfl small⟩

namespace Double

variable {s t rest : List Char}

theorem quote_isGraphic : IsGraphic '"' := by
  unfold IsGraphic
  decide

/-- No written form of a text starts with a space unless the text does. -/
theorem unblank (written : Double column s t) (unblank : s.head? ≠ some ' ') :
    t.head? ≠ some ' ' := by
  cases written with
  | nil => simp
  | char graphic => simpa using graphic.ne_space
  | space => exact absurd rfl unblank
  | escape escaped =>
    obtain ⟨e, rfl, -, -⟩ := escapeText?_eq_some escaped
    simp
  | escapedSpace => exact absurd rfl unblank
  | wrap => simp

/-- Nothing but spaces in front keeps a written text from being solid. -/
theorem solid (written : Double column s t) (unblank : t.head? ≠ some ' ') : Solid t := by
  cases written with
  | nil => exact solid_nil
  | char graphic => exact solid_cons_of_isGraphic graphic _
  | space => exact absurd rfl unblank
  | escape escaped =>
    obtain ⟨e, rfl, -, -⟩ := escapeText?_eq_some escaped
    exact solid_cons_of_isGraphic backslash_isGraphic _
  | escapedSpace => exact solid_cons_of_isGraphic backslash_isGraphic _
  | wrap => exact solid_cons_of_isGraphic backslash_isGraphic _

/-- Spaces in front of something solid are read before it. -/
theorem body_spaces {u : List Char} {length : ℕ} (solid : Solid u) (nonempty : u ≠ [])
    (read : ∀ fuel, length < fuel → Quoted.body true fuel u = .ok (s, rest)) (n : ℕ) {fuel : ℕ}
    (enough : length + n < fuel) :
    Quoted.body true fuel (List.replicate n ' ' ++ u) = .ok (List.replicate n ' ' ++ s, rest) := by
  cases n with
  | zero => exact read fuel enough
  | succ n =>
    obtain ⟨fuel, rfl⟩ := Nat.exists_eq_succ_of_ne_zero (by omega : fuel ≠ 0)
    exact Quoted.body_white rfl (Quoted.space_eq solid nonempty (n + 1)) (read fuel (by omega))

/-- A character other than the quote, the backslash and white space stands for itself. -/
theorem body_char {c : Char} {r : List Char} {fuel : ℕ} (graphic : IsGraphic c) (quote : c ≠ '"')
    (backslash : c ≠ '\\') (read : Quoted.body true fuel r = .ok (s, rest)) :
    Quoted.body true (fuel + 1) (c :: r) = .ok (c :: s, rest) := by
  unfold Quoted.body
  simp only [graphic.isBlank_eq, graphic.isBreak_eq, Bool.or_self, Bool.false_eq_true, if_false,
    if_true, if_neg quote, if_neg backslash, read]
  rfl

/-- An escape is read before what follows it. -/
theorem body_escape {e r after : List Char} {fuel : ℕ} (escaped : Quoted.escape r = .ok (e, after))
    (read : Quoted.body true fuel after = .ok (s, rest)) :
    Quoted.body true (fuel + 1) ('\\' :: r) = .ok (e ++ s, rest) := by
  unfold Quoted.body
  have white : (isBlank '\\' || isBreak '\\') = false := rfl
  simp only [white, Bool.false_eq_true, if_false, if_true, escaped, bind, Except.bind, read,
    show ¬('\\' = '"') by decide]

theorem body_eq (written : Double column s t) (indented : 0 < column) (n : ℕ) {fuel : ℕ}
    (enough : t.length + n < fuel) :
    Quoted.body true fuel (List.replicate n ' ' ++ (t ++ '"' :: rest)) =
      .ok (List.replicate n ' ' ++ s, rest) := by
  induction written generalizing n fuel with
  | nil =>
    refine body_spaces (solid_cons_of_isGraphic quote_isGraphic rest) (List.cons_ne_nil _ _)
      (fun fuel enough => ?_) n enough
    obtain ⟨fuel, rfl⟩ := Nat.exists_eq_succ_of_ne_zero enough.ne'
    rfl
  | @char c s t graphic quote backslash written ih =>
    refine body_spaces (solid_cons_of_isGraphic graphic _) (List.cons_ne_nil _ _)
      (fun fuel enough => ?_) n enough
    obtain ⟨fuel, rfl⟩ := Nat.exists_eq_succ_of_ne_zero (by omega : fuel ≠ 0)
    exact body_char graphic quote backslash (ih 0 (by simpa using enough))
  | @space s t written ih =>
    -- One more space stands in front of the rest.
    have read : Quoted.body true fuel (List.replicate (n + 1) ' ' ++ (t ++ '"' :: rest)) =
        .ok (List.replicate (n + 1) ' ' ++ s, rest) := ih (n + 1) (by simp at enough; omega)
    simpa [List.replicate_succ', List.append_assoc] using read
  | @escape c e s t escaped written ih =>
    obtain ⟨e', rfl, -, reads⟩ := escapeText?_eq_some escaped
    refine body_spaces (solid_cons_of_isGraphic backslash_isGraphic _) (List.cons_ne_nil _ _)
      (fun fuel enough => ?_) n enough
    obtain ⟨fuel, rfl⟩ := Nat.exists_eq_succ_of_ne_zero (by omega : fuel ≠ 0)
    change Quoted.body true (fuel + 1) ('\\' :: (e' ++ t ++ '"' :: rest)) = _
    rw [List.append_assoc]
    exact body_escape (reads _) (ih 0 (by simp at enough; omega))
  | @escapedSpace s t written ih =>
    refine body_spaces (solid_cons_of_isGraphic backslash_isGraphic _) (List.cons_ne_nil _ _)
      (fun fuel enough => ?_) n enough
    obtain ⟨fuel, rfl⟩ := Nat.exists_eq_succ_of_ne_zero (by omega : fuel ≠ 0)
    exact body_escape (e := [' ']) rfl (ih 0 (by simp at enough; omega))
  | @wrap s t unblank written ih =>
    refine body_spaces (solid_cons_of_isGraphic backslash_isGraphic _) (List.cons_ne_nil _ _)
      (fun fuel enough => ?_) n enough
    obtain ⟨fuel, rfl⟩ := Nat.exists_eq_succ_of_ne_zero (by omega : fuel ≠ 0)
    have closed := (written.solid unblank).append_cons (t := rest) quote_isGraphic
    have escaped : Quoted.escape ('\n' :: (List.replicate column ' ' ++ (t ++ '"' :: rest))) =
        .ok ([], t ++ '"' :: rest) := Quoted.emptyLines_eq closed indented 0 (Nat.succ_pos _)
    change Quoted.body true (fuel + 1)
      ('\\' :: '\n' :: (List.replicate column ' ' ++ t ++ '"' :: rest)) = _
    rw [List.append_assoc]
    exact body_escape escaped (ih 0 (by simp at enough; omega))

/-- A text between double quotes is read back. -/
theorem read_eq (written : Double column s t) (indented : 0 < column) :
    Quoted.read true (t ++ '"' :: rest) = .ok (s, rest) :=
  written.body_eq indented 0 (by rw [List.length_append, List.length_cons]; omega)

/-- Everything between double quotes is printed. -/
theorem isPrinted (written : Double column s t) : ∀ c ∈ t, IsPrinted c := by
  induction written with
  | nil => simp
  | char graphic _ _ _ ih => exact List.forall_mem_cons.mpr ⟨.inl graphic, ih⟩
  | space _ ih => exact List.forall_mem_cons.mpr ⟨.inr (.inl rfl), ih⟩
  | escape escaped _ ih =>
    obtain ⟨e, rfl, graphic, -⟩ := escapeText?_eq_some escaped
    exact List.forall_mem_append.mpr ⟨fun c member => .inl (graphic c member), ih⟩
  | escapedSpace _ ih =>
    exact List.forall_mem_cons.mpr ⟨.inl backslash_isGraphic,
      List.forall_mem_cons.mpr ⟨.inr (.inl rfl), ih⟩⟩
  | wrap _ _ ih =>
    exact List.forall_mem_cons.mpr ⟨.inl backslash_isGraphic, List.forall_mem_cons.mpr
      ⟨.inr (.inr rfl), List.forall_mem_append.mpr
        ⟨fun c member => .inr (.inl (List.eq_of_mem_replicate member)), ih⟩⟩⟩

/-- A character that needs no escape stands for itself. -/
theorem plain {c : Char} (unescaped : escapeText? c = none) (written : Double column s t) :
    Double column (c :: s) (c :: t) := by
  obtain ⟨rfl | graphic, quote, backslash⟩ := of_escapeText?_eq_none unescaped
  · exact .space written
  · exact .char graphic quote backslash written

/-- A broken line, with a mark in front of a space that starts the next one. -/
theorem wrap_of_head (written : Double column s t)
    (space : s.head? = some ' ' → ∃ t', t = ' ' :: t' ∧ Double column s.tail t') :
    Double column s ('\\' :: '\n' :: (List.replicate column ' ' ++
      ((if s.head? = some ' ' then ['\\'] else []) ++ t))) := by
  by_cases blank : s.head? = some ' '
  · obtain ⟨t', rfl, written'⟩ := space blank
    obtain ⟨s', rfl⟩ := List.head?_eq_some_iff.mp blank
    rw [if_pos blank]
    exact .wrap (by simp) (.escapedSpace written')
  · rw [if_neg blank, List.nil_append]
    exact .wrap (written.unblank blank) written

end Double

/-- What breaking a line between double quotes adds to a page. -/
theorem text_breakDouble {p : Page} (used : p.fresh = false) (column : ℕ) (next : Option Char) :
    (breakDouble column p next).text = p.text ++ '\\' :: '\n' :: (List.replicate column ' ' ++
        if next = some ' ' then ['\\'] else []) ∧
      (breakDouble column p next).fresh = false ∧
      (breakDouble column p next).column = column + if next = some ' ' then 1 else 0 := by
  obtain ⟨text, starts⟩ := Page.indent_of_used (p := p.put ['\\']) column (.inl used)
  unfold breakDouble
  split <;> simp [text, starts.column]

/-- The characters of a text between double quotes, written on a page behind those that wait. -/
theorem exists_putDoubleChars (split : Bool) (s : List Char) (narrow : column < lineWidth)
    (started : Bool) (waiting : List Char) {p : Page} (used : p.fresh = false) :
    ∃ t, Double column s t ∧
      (putDoubleChars split column started waiting p s).text = p.text ++ waiting.reverse ++ t ∧
      (putDoubleChars split column started waiting p s).fresh = false ∧
      (waiting = [] → p.column ≤ lineWidth → s.head? = some ' ' →
        ∃ t', t = ' ' :: t' ∧ Double column s.tail t') ∧
      (split = false → '\n' ∉ t) := by
  induction s generalizing started waiting p with
  | nil =>
    refine ⟨[], .nil, by simp [putDoubleChars], used, fun _ _ space => by simp at space,
      fun _ => by simp⟩
  | cons c s ih =>
    cases escaped : escapeText? c with
    | none =>
      have line : c ≠ '\n' := by
        rintro rfl
        cases escaped
      simp only [putDoubleChars, escaped]
      split
      · next full =>
        -- The line is broken in front of the character, which waits from then on.
        simp only [Bool.and_eq_true, decide_eq_true_eq] at full
        obtain ⟨text, used', -⟩ :=
          text_breakDouble (p := p.put waiting.reverse) used column (some c)
        obtain ⟨t, written, text', used'', -, lines⟩ := ih true [c] used'
        have broken := (written.plain escaped).wrap_of_head fun space => by
          obtain rfl : c = ' ' := by simpa using space
          exact ⟨t, rfl, written⟩
        refine ⟨_, broken, ?_, used'', ?_, ?_⟩
        · simp [text', text]
        · intro empty short
          simp [empty] at full
          omega
        · intro unsplit
          simp [unsplit] at full
      · obtain ⟨t, written, text, used', -, lines⟩ := ih true (c :: waiting) used
        refine ⟨c :: t, written.plain escaped, by simp [text], used', ?_, ?_⟩
        · rintro - - space
          obtain rfl : c = ' ' := by simpa using space
          exact ⟨t, rfl, written⟩
        · intro unsplit
          simpa [line.symm] using lines unsplit
    | some e =>
      obtain ⟨e', shape, graphic, -⟩ := escapeText?_eq_some escaped
      have line : '\n' ∉ e := fun member => (graphic _ member).ne_lineFeed rfl
      have noSpace : (c :: s).head? ≠ some ' ' := by
        intro space
        obtain rfl : c = ' ' := by simpa using space
        cases escaped
      simp only [putDoubleChars, escaped]
      split
      · next full =>
        -- The line is broken behind the escape, and a space that comes next is not the last on it.
        obtain ⟨text, used', here⟩ :=
          text_breakDouble (p := (p.put waiting.reverse).put e) used column s.head?
        obtain ⟨t, written, text', used'', next, -⟩ := ih true [] used'
        have broken := written.wrap_of_head fun space => next rfl (by
          rw [here, if_pos space]
          omega) space
        refine ⟨_, .escape escaped broken, ?_, used'', fun _ _ first => (noSpace first).elim,
          fun unsplit => ?_⟩
        · simp [text', text]
        · simp [unsplit] at full
      · obtain ⟨t, written, text, used', -, lines⟩ :=
          ih true [] (p := (p.put waiting.reverse).put e) used
        refine ⟨e ++ t, .escape escaped written, by simp [text], used',
          fun _ _ first => (noSpace first).elim, fun unsplit => ?_⟩
        rw [List.mem_append, not_or]
        exact ⟨line, lines unsplit⟩

/-- Where lines are not broken, every character is written on its own. -/
theorem text_putDoubleChars_false (s : List Char) (started : Bool) (waiting : List Char)
    (p : Page) :
    (putDoubleChars false column started waiting p s).text =
      p.text ++ waiting.reverse ++ s.flatMap fun c => (escapeText? c).getD [c] := by
  induction s generalizing started waiting p with
  | nil => simp [putDoubleChars]
  | cons c s ih => cases escaped : escapeText? c <;> simp [putDoubleChars, escaped, ih]

/-- What is written for a text between double quotes, the quotes apart. -/
theorem exists_double (split : Bool) (s : List Char) (narrow : column < lineWidth) (p : Page) :
    ∃ t, Double column s t ∧
      (putDouble split column p s).text = p.text ++ (if p.blank then [] else [' ']) ++
        '"' :: (t ++ ['"']) ∧
      (putDouble split column p s).fresh = false ∧ (split = false → '\n' ∉ t) := by
  obtain ⟨t, written, text, -, -, lines⟩ := exists_putDoubleChars split s narrow false []
    (p := p.mark ['"'] true false false) (by simp)
  refine ⟨t, written, ?_, by simp [putDouble], lines⟩
  rw [putDouble, Page.text_mark, text, Page.text_mark]
  cases p.blank <;> simp

end Double

end Yaml

end Quorum
