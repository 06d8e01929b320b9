import Quorum.Proofs.Outcome
import Quorum.Proofs.Yaml.Layout
import Quorum.Proofs.Yaml.Spelling

/-!
# Where scanning stops

Reading a token moves to a later place of the text, so whatever is read stands in the text. Scanning
stops at the end of the text, where a rule of the format is broken, and at numbers past their
bounds: an escape past the last character, or a version with too many digits. Tags are read only
where there are marks for them, and a plain scalar never ends in a line end.

## Main definitions

* `Yaml.Exceeds` — a number of the text is past its bound
* `Yaml.Refuses` — why scanning stops
* `Yaml.Token.Fits` — what is known of a token without its place
* `Yaml.Layout.Follows` — what has been read of a text

## Main results

* `Yaml.Layout.Follows.next` — one token
* `Yaml.scan_fits` — the tokens of a text
-/

namespace Quorum

namespace Yaml

open Outcome (Yields)

/-- A number of the text is past its bound: an escape past the last character, or a version with too
many digits. -/
inductive Exceeds (s : List Char) : Failure → Prop
  | escape {digits : List Char} {f : Failure} (stands : '\\' :: 'U' :: digits <:+: s)
    (eight : digits.length = 8) (numbered : Quoted.numbered digits = .error f)
    (other : f ≠ .malformed) : Exceeds s f
  | version {line digits : List Char} (stands : '%' :: (line ++ digits) <:+: s)
    (unbroken : ∀ c ∈ line, isBreak c = false) (decimal : ∀ c ∈ digits, c.isDigit = true)
    (long : 4300 < digits.length) : Exceeds s (.digits digits.length)

/-- Why scanning a text stops. -/
def Refuses (s : List Char) (f : Failure) : Prop := f = .malformed ∨ Exceeds s f

variable {s t r : List Char}

theorem Refuses.malformed : Refuses s .malformed := .inl rfl

section Places

/-! ### Places -/

namespace Cursor

theorem step_suffix (k : Cursor) : k.step.rest <:+ k.rest := by
  cases starts : k.rest with
  | nil =>
    unfold step
    simp [starts]
  | cons c r =>
    rw [rest_step starts]
    exact List.suffix_cons c r

theorem forward_suffix (k : Cursor) (n : ℕ) : (k.forward n).rest <:+ k.rest := by
  induction n generalizing k with
  | zero => exact List.suffix_rfl
  | succ n ih => exact (ih k.step).trans k.step_suffix

theorem upTo_suffix (k : Cursor) (r : List Char) : (k.upTo r).rest <:+ k.rest :=
  k.forward_suffix _

theorem skipComment_suffix (k : Cursor) : k.skipComment.rest <:+ k.rest := by
  unfold skipComment
  split
  · exact k.forward_suffix _
  · exact List.suffix_rfl

end Cursor

end Places

section Quotes

/-! ### Quoted scalars -/

/-- A text is read up to a later place. -/
abbrev Shortens {α : Type} (s : List Char) (p : α × List Char) : Prop := p.2 <:+ s

theorem Quoted.emptyLines_yields (fuel : ℕ) (s : List Char) :
    Yields (Shortens s) (· = .malformed) (Quoted.emptyLines fuel s) := by
  induction fuel generalizing s with
  | zero => exact .error rfl
  | succ fuel ih =>
    unfold Quoted.emptyLines
    split
    · exact .error rfl
    · have behind := List.dropWhile_suffix isBlank (l := s)
      split
      · exact .ok (List.nil_suffix ..)
      · next c r starts =>
        rw [starts] at behind
        split
        · refine (ih r).bind fun p shorter => .ok ?_
          exact shorter.trans ((List.suffix_cons c r).trans behind)
        · exact .ok behind

theorem Quoted.space_yields (s : List Char) :
    Yields (Shortens s) (· = .malformed) (Quoted.space s) := by
  unfold Quoted.space
  have behind := List.dropWhile_suffix isBlank (l := s)
  split
  · exact .error rfl
  · next c r starts =>
    rw [starts] at behind
    split
    · refine (Quoted.emptyLines_yields _ r).bind fun p shorter => .ok ?_
      exact shorter.trans ((List.suffix_cons c r).trans behind)
    · exact .ok behind

/-- A number with digits to base sixteen is bounded by their count. -/
theorem foldl_lt {ds : List ℕ} (digits : ∀ d ∈ ds, d < 16) (n : ℕ) :
    ds.foldl (fun n d => 16 * n + d) n < (n + 1) * 16 ^ ds.length := by
  induction ds generalizing n with
  | nil => simp
  | cons d ds ih =>
    obtain ⟨first, others⟩ := List.forall_mem_cons.mp digits
    calc ds.foldl (fun n d => 16 * n + d) (16 * n + d)
      _ < (16 * n + d + 1) * 16 ^ ds.length := ih others _
      _ ≤ (n + 1) * 16 * 16 ^ ds.length := Nat.mul_le_mul_right _ (by omega)
      _ = (n + 1) * 16 ^ (ds.length + 1) := by rw [Nat.pow_succ', Nat.mul_assoc]

theorem hexValue?_lt {c : Char} {d : ℕ} (value : Bytes.hexValue? c = some d) : d < 16 := by
  have each : ∀ c ∈ "0123456789abcdefABCDEF".toList, (Bytes.hexValue? c).all (· < 16) = true := by
    decide
  have small := forall_hexDigit each (show (Bytes.hexValue? c).isSome = true by rw [value]; rfl)
  simpa [value] using small

theorem digits_of_mapM {digits : List Char} {ds : List ℕ}
    (read : digits.mapM Bytes.hexValue? = some ds) :
    ds.length = digits.length ∧ ∀ d ∈ ds, d < 16 := by
  induction digits generalizing ds with
  | nil =>
    cases read
    exact ⟨rfl, List.forall_mem_nil _⟩
  | cons c digits ih =>
    rw [List.mapM_cons, Option.bind_eq_bind, Option.bind_eq_some_iff] at read
    obtain ⟨d, first, read⟩ := read
    obtain ⟨ds, others, read⟩ := Option.bind_eq_some_iff.mp read
    cases read
    obtain ⟨count, small⟩ := ih others
    exact ⟨congrArg Nat.succ count, List.forall_mem_cons.mpr ⟨hexValue?_lt first, small⟩⟩

/-- A number past the last character has more than five digits. -/
theorem Quoted.numbered_yields (digits : List Char) :
    Yields (fun _ => True) (fun f => f = .malformed ∨ 5 < digits.length)
      (Quoted.numbered digits) := by
  unfold Quoted.numbered
  split
  · exact .error (.inl rfl)
  · next ds read =>
    obtain ⟨count, small⟩ := digits_of_mapM read
    have bound := foldl_lt small 0
    rw [count] at bound
    have long (past : 0x10FFFF < ds.foldl (fun n d => 16 * n + d) 0) : 5 < digits.length := by
      by_contra short
      have : 16 ^ digits.length ≤ 16 ^ 5 := Nat.pow_le_pow_right (by decide) (by omega)
      omega
    dsimp only
    split_ifs with size past
    · exact .error (.inr (long (by norm_num at size; omega)))
    · exact .error (.inr (long past))
    · exact .ok trivial
    · exact .ok trivial

/-- Of the escapes only the longest can be past the last character. -/
theorem Quoted.escape_yields (stands : '\\' :: r <:+ s) :
    Yields (Shortens r) (Refuses s) (Quoted.escape r) := by
  unfold Quoted.escape
  split
  · exact .error .malformed
  · next c r =>
    split
    · exact .ok (List.suffix_cons c r)
    · next width escaped letter =>
      split
      · exact .error .malformed
      · next enough =>
        have count : (r.take width).length = width := by rw [List.length_take]; omega
        cases numbered : Quoted.numbered (r.take width) with
        | ok d => exact .ok ((List.drop_suffix width r).trans (List.suffix_cons c r))
        | error f =>
          by_cases other : f = .malformed
          · exact .error (.inl other)
          · have long := ((Quoted.numbered_yields _).failure numbered).resolve_left other
            rw [count] at long
            -- The other escapes have two or four digits.
            obtain ⟨rfl, rfl⟩ : c = 'U' ∧ width = 8 := by
              unfold Quoted.escapeWidth? at letter
              split at letter
              · cases letter
                omega
              · cases letter
                omega
              · cases letter
                exact ⟨rfl, rfl⟩
              · cases letter
            have first : '\\' :: 'U' :: r.take 8 <+: '\\' :: 'U' :: r := by
              simpa using List.take_prefix 8 r
            exact .error (.inr (.escape (first.isInfix.trans stands.isInfix) count numbered other))
    · split
      · exact (Quoted.emptyLines_yields _ r).mono
          (fun _ shorter => shorter.trans (List.suffix_cons c r)) fun _ => .inl
      · exact .error .malformed

/-- The text between quotes. -/
theorem Quoted.body_yields (double : Bool) (fuel : ℕ) (stands : r <:+ s) :
    Yields (Shortens r) (Refuses s) (Quoted.body double fuel r) := by
  induction fuel generalizing r with
  | zero => exact .error .malformed
  | succ fuel ih =>
    cases r with
    | nil => exact .error .malformed
    | cons c r =>
      have next := List.suffix_cons c r
      -- Whatever has been read so far, the rest of the text is read from a later place.
      have later {q : List Char} (shorter : q <:+ c :: r) (t : List Char) :
          Yields (Shortens (c :: r)) (Refuses s)
            (Quoted.body double fuel q >>= fun p => .ok (t ++ p.1, p.2)) :=
        (ih (shorter.trans stands)).bind fun _ further => .ok (further.trans shorter)
      unfold Quoted.body
      split_ifs with white quote closing escape apostrophe
      · exact ((Quoted.space_yields (c :: r)).weaken fun _ => .inl).bind
          fun p shorter => later shorter p.1
      · exact .ok next
      · subst escape
        exact (Quoted.escape_yields stands).bind fun p shorter => later (shorter.trans next) p.1
      · exact later next [c]
      · split
        · next d r =>
          split
          · exact later ((List.suffix_cons d r).trans next) [d]
          · exact .ok next
        · exact .ok (List.nil_suffix ..)
      · exact later next [c]

end Quotes

section PlainWords

/-! ### Plain scalars -/

/-- A word holds no line ends. -/
theorem Plain.not_isBreak_of_mem_word {flow : Bool} {c : Char}
    (member : c ∈ (Plain.word flow s).1) : isBreak c = false := by
  induction s with
  | nil => cases member
  | cons d s ih =>
    unfold Plain.word at member
    split at member
    · cases member
    · next stands =>
      rcases List.mem_cons.mp member with rfl | member
      · simp_all [Plain.stops]
      · exact ih member

theorem Plain.blankLines_suffix (fuel : ℕ) (k : Cursor) :
    (Plain.blankLines fuel k).2.2.rest <:+ k.rest := by
  induction fuel generalizing k with
  | zero => exact List.suffix_rfl
  | succ fuel ih =>
    unfold Plain.blankLines
    split
    · exact List.suffix_rfl
    · split
      · exact (ih k.step).trans k.step_suffix
      · split
        · split
          · exact k.step_suffix
          · exact (ih k.step).trans k.step_suffix
        · exact List.suffix_rfl

theorem Plain.gap_suffix (k : Cursor) : (Plain.gap k).after.rest <:+ k.rest := by
  have spaces : k.skipSpaces.rest <:+ k.rest := k.forward_suffix _
  unfold Plain.gap
  dsimp only
  split
  · exact spaces
  · split
    · split
      · exact k.skipSpaces.step_suffix.trans spaces
      · exact (Plain.blankLines_suffix _ _).trans (k.skipSpaces.step_suffix.trans spaces)
    · exact spaces

theorem Plain.words_suffix (flow : Bool) (indent fuel : ℕ) (k : Cursor) (before : List Char)
    (broken : Bool) : (Plain.words flow indent fuel k before broken).2.2.rest <:+ k.rest := by
  induction fuel generalizing k before broken with
  | zero => exact List.suffix_rfl
  | succ fuel ih =>
    have behind := (Plain.gap_suffix (k.upTo (Plain.word flow k.rest).2)).trans (k.upTo_suffix _)
    unfold Plain.words
    dsimp only
    split
    · exact List.suffix_rfl
    · split
      · exact behind
      · exact (ih ..).trans behind

/-- Behind the last word of a plain scalar nothing is kept. -/
theorem Plain.getLast?_words (flow : Bool) (indent fuel : ℕ) (k : Cursor) (before : List Char)
    (broken : Bool) : (Plain.words flow indent fuel k before broken).1.getLast? ≠ some '\n' := by
  induction fuel generalizing k before broken with
  | zero => simp [Plain.words]
  | succ fuel ih =>
    unfold Plain.words
    dsimp only
    split
    · simp
    · next nonempty =>
      generalize Plain.gap (k.upTo (Plain.word flow k.rest).2) = g
      -- What stands before a word does not matter, because the word is not empty.
      have last : (before ++ (Plain.word flow k.rest).1).getLast? ≠ some '\n' := by
        have some : (Plain.word flow k.rest).1 ≠ [] := by simp_all
        rw [List.getLast?_append_of_ne_nil _ some]
        intro line
        have solid := Plain.not_isBreak_of_mem_word (List.mem_of_getLast? line)
        cases solid
      split
      · exact last
      · rw [List.getLast?_append]
        cases more : (Plain.words flow indent fuel g.after g.text g.broken).1.getLast? with
        | none => simpa using last
        | some c => simpa [more] using ih g.after g.text g.broken

end PlainWords

section Blocks

/-! ### Blocks of lines -/

namespace Block

theorem lineEnd_yields (k : Cursor) :
    Yields (fun k' => k'.rest <:+ k.rest) (· = .malformed) (lineEnd k) := by
  have behind := k.skipSpaces.skipComment_suffix.trans (k.forward_suffix _)
  unfold lineEnd
  dsimp only
  split
  · exact .ok ((Cursor.step_suffix _).trans behind)
  · exact .error rfl

theorem margin_suffix (fuel : ℕ) (k : Cursor) (deepest : ℕ) :
    (margin fuel k deepest).2.2.rest <:+ k.rest := by
  induction fuel generalizing k deepest with
  | zero => exact List.suffix_rfl
  | succ fuel ih =>
    unfold margin
    split
    · exact List.suffix_rfl
    · split
      · exact (ih ..).trans k.step_suffix
      · split
        · exact (ih ..).trans k.step_suffix
        · exact List.suffix_rfl

theorem emptyLines_suffix (indent fuel : ℕ) (k : Cursor) :
    (emptyLines indent fuel k).2.rest <:+ k.rest := by
  induction fuel generalizing k with
  | zero => exact List.suffix_rfl
  | succ fuel ih =>
    have indented : (k.indentTo indent).rest <:+ k.rest := k.forward_suffix _
    unfold emptyLines
    dsimp only
    split
    · exact indented
    · split
      · exact (ih _).trans ((Cursor.step_suffix _).trans indented)
      · exact indented

theorem lines_suffix (fold : Bool) (indent fuel : ℕ) (k : Cursor) (before : List Char) :
    (lines fold indent fuel k before).2.2.2.rest <:+ k.rest := by
  induction fuel generalizing k before with
  | zero => exact List.suffix_rfl
  | succ fuel ih =>
    have behind (n : ℕ) : (emptyLines indent n k.skipLine.step).2.rest <:+ k.rest :=
      (emptyLines_suffix _ _ _).trans ((Cursor.step_suffix _).trans (k.forward_suffix _))
    unfold lines
    split
    · dsimp only
      split
      · exact (ih ..).trans (behind _)
      · exact behind _
    · exact List.suffix_rfl

theorem read_yields (fold : Bool) (outer : ℕ) (k : Cursor) :
    Yields (fun p => p.2.rest <:+ k.rest) (· = .malformed) (read fold outer k) := by
  unfold read
  split
  next h rest _ =>
  change Yields _ _ (ite _ _ _)
  split
  · exact .error rfl
  · refine (lineEnd_yields _).bind fun k' shorter => ?_
    have start := shorter.trans (k.upTo_suffix _)
    split
    · have behind := (margin_suffix (k'.rest.length + 1) k' 0).trans start
      dsimp only
      split <;> exact .ok ((lines_suffix ..).trans behind)
    · next n _ =>
      have behind := (emptyLines_suffix (max outer 1 + n - 1) (k'.rest.length + 1) k').trans start
      dsimp only
      split <;> exact .ok ((lines_suffix ..).trans behind)

end Block

end Blocks

section Tokens

/-! ### Tokens on one line -/

/-- A text goes on at a later place of the same line. -/
def SameLine (s rest : List Char) : Prop :=
  ∃ line, (∀ c ∈ line, isBreak c = false) ∧ s = line ++ rest

/-- Characters that end no line are passed on the same line. -/
theorem sameLine_dropWhile {f : Char → Bool} (unbroken : ∀ c, f c = true → isBreak c = false)
    (s : List Char) : SameLine s (s.dropWhile f) :=
  ⟨s.takeWhile f, fun c member => unbroken c (List.mem_takeWhile_imp member),
    List.takeWhile_append_dropWhile.symm⟩

theorem not_isBreak_of_isNameChar {c : Char} (namely : isNameChar c = true) :
    isBreak c = false := by
  by_contra breaks
  rw [Bool.not_eq_false] at breaks
  -- The four line ends are no characters of names.
  have code : c.toNat ∈ [0x0A, 0x85, 0x2028, 0x2029] := by
    simp only [isBreak, Bool.or_eq_true, beq_iff_eq] at breaks
    rcases breaks with ((rfl | next) | line) | paragraph
    · decide
    · simp [next]
    · simp [line]
    · simp [paragraph]
  have other : ∀ n ∈ [0x0A, 0x85, 0x2028, 0x2029], isNameChar (Char.ofNat n) = false := by decide
  rw [← Char.ofNat_toNat c, other c.toNat code] at namely
  cases namely

theorem name_yields (s : List Char) :
    Yields (fun p => SameLine s p.2) (· = .malformed) (name s) := by
  unfold name
  split
  · exact .error rfl
  · exact .ok (sameLine_dropWhile (fun _ => not_isBreak_of_isNameChar) s)

theorem anchorName_yields (s : List Char) :
    Yields (fun _ => True) (· = .malformed) (anchorName s) := by
  unfold anchorName
  refine (name_yields s).bind fun p _ => ?_
  dsimp only
  split
  · exact .ok trivial
  · exact .error rfl

theorem tagEscapes_yields (s : List Char) :
    Yields (fun _ => True) (· = .malformed) (tagEscapes s) := by
  fun_induction tagEscapes s with
  | case1 a b r high low _ _ ih => exact ih.bind fun _ _ => .ok trivial
  | case2 => exact .error rfl
  | case3 => exact .error rfl
  | case4 => exact .ok trivial

theorem tagChars_yields (fuel : ℕ) (s : List Char) :
    Yields (fun _ => True) (· = .malformed) (tagChars fuel s) := by
  induction fuel generalizing s with
  | zero => exact .ok trivial
  | succ fuel ih =>
    cases s with
    | nil => exact .ok trivial
    | cons c s =>
      unfold tagChars
      split_ifs
      · refine (tagEscapes_yields _).bind fun p _ => ?_
        dsimp only
        split
        · exact .error rfl
        · exact (ih _).bind fun _ _ => .ok trivial
      · exact (ih _).bind fun _ _ => .ok trivial
      · exact .ok trivial

theorem tagRest_yields (s : List Char) : Yields (fun _ => True) (· = .malformed) (tagRest s) := by
  unfold tagRest
  refine (tagChars_yields _ s).bind fun p _ => ?_
  dsimp only
  split
  · exact .error rfl
  · exact .ok trivial

theorem handleRest_yields (s : List Char) :
    Yields (fun _ => True) (· = .malformed) (handleRest s) := by
  unfold handleRest
  split
  · exact .ok trivial
  · exact .error rfl

theorem tag_yields (s : List Char) : Yields (fun _ => True) (· = .malformed) (tag s) := by
  have finish (handle : Option String) (t : String) (rest : List Char) :
      Yields (fun _ => True) (· = Failure.malformed)
        (if endsField rest then .ok (handle, t, rest) else .error .malformed) := by
    split
    · exact .ok trivial
    · exact .error rfl
  simp only [tag, Outcome.bind_ok, Outcome.bind_error]
  split
  · refine (tagRest_yields _).bind fun p _ => ?_
    split
    · exact finish ..
    · exact .error rfl
  · split
    · exact finish ..
    · split
      · refine (handleRest_yields _).bind fun p _ => (tagRest_yields _).bind fun q _ => ?_
        exact finish ..
      · exact (tagRest_yields _).bind fun p _ => finish ..

/-- On the line that a text starts with a number has too many digits. -/
inductive LongNumber (s : List Char) : Failure → Prop
  | mk {line digits : List Char} (starts : line ++ digits <+: s)
    (unbroken : ∀ c ∈ line, isBreak c = false) (decimal : ∀ c ∈ digits, c.isDigit = true)
    (long : 4300 < digits.length) : LongNumber s (.digits digits.length)

/-- What stops the reading of a line. -/
def StopsLine (s : List Char) (f : Failure) : Prop := f = .malformed ∨ LongNumber s f

/-- What stops the reading at a later place of a line stops the reading of the line. -/
theorem StopsLine.behind (later : SameLine s t) {f : Failure} (stops : StopsLine t f) :
    StopsLine s f := by
  obtain ⟨before, same, rfl⟩ := later
  refine stops.imp_right fun long => ?_
  obtain @⟨line, digits, starts, unbroken, decimal, long⟩ := long
  have starts : before ++ line ++ digits <+: before ++ t := by
    rw [List.append_assoc]
    exact (List.prefix_append_right_inj before).mpr starts
  exact .mk starts (List.forall_mem_append.mpr ⟨same, unbroken⟩) decimal long

theorem SameLine.cons {c : Char} (unbroken : isBreak c = false) (s : List Char) :
    SameLine (c :: s) s :=
  ⟨[c], List.forall_mem_singleton.mpr unbroken, rfl⟩

theorem SameLine.trans (first : SameLine s t) (second : SameLine t r) : SameLine s r := by
  obtain ⟨before, same, rfl⟩ := first
  obtain ⟨line, unbroken, rfl⟩ := second
  exact ⟨before ++ line, List.forall_mem_append.mpr ⟨same, unbroken⟩,
    (List.append_assoc ..).symm⟩

theorem sameLine_dropSpaces (s : List Char) : SameLine s (dropSpaces s) := by
  refine sameLine_dropWhile (fun c space => ?_) s
  obtain rfl : c = ' ' := by simpa using space
  rfl

theorem number_yields (s : List Char) :
    Yields (fun p => SameLine s p.2) (StopsLine s) (number s) := by
  unfold number
  split
  · exact .error (.inl rfl)
  · split
    · next long =>
      have starts : [] ++ s.takeWhile Char.isDigit <+: s := List.takeWhile_prefix _
      exact .error (.inr (.mk starts (List.forall_mem_nil _)
        (fun c => List.mem_takeWhile_imp) long))
    · exact .ok (sameLine_dropWhile (fun c => forall_digit (P := fun c => isBreak c = false)
        (by decide)) s)

theorem version_yields (s : List Char) :
    Yields (fun _ => True) (StopsLine s) (version s) := by
  have start := sameLine_dropSpaces s
  unfold version
  refine ((number_yields _).weaken fun _ => .behind start).bind fun p major => ?_
  simp only [Outcome.bind_error]
  split
  · exact .error (.inl rfl)
  · next point =>
    -- Between the two numbers there is a point, which ends no line.
    obtain ⟨rest, shape⟩ := List.head?_eq_some_iff.mp (not_not.mp point)
    have minor : SameLine s p.2.tail := by
      refine (start.trans major).trans ?_
      rw [shape]
      exact .cons rfl rest
    refine ((number_yields _).weaken fun _ => .behind minor).bind fun q _ => ?_
    split
    · exact .ok trivial
    · exact .error (.inl rfl)

theorem handle_yields (s : List Char) :
    Yields (fun _ => True) (· = .malformed) (handle s) := by
  simp only [handle, Outcome.bind_ok, Outcome.bind_error]
  have target (name : String) (s : List Char) : Yields (fun _ => True) (· = .malformed)
      (tagRest s >>= fun p =>
        if endsField p.2 then .ok (Directive.handle name p.1, p.2) else .error .malformed) := by
    refine (tagRest_yields s).bind fun p _ => ?_
    split
    · exact .ok trivial
    · exact .error rfl
  split
  · exact .error rfl
  · split
    · split
      · exact .error rfl
      · exact target ..
    · refine (handleRest_yields _).bind fun p _ => ?_
      split
      · exact .error rfl
      · exact target ..

/-- A directive stands behind its mark. -/
theorem directive_yields (stands : '%' :: r <:+ s) :
    Yields (fun _ => True) (Refuses s) (directive r) := by
  have line : Yields (fun _ => True) (StopsLine r) (directive r) := by
    unfold directive
    refine ((name_yields r).weaken fun _ => .inl).bind fun p behind => ?_
    simp only [Outcome.bind_error]
    split
    · exact .error (.inl rfl)
    · split
      · exact (version_yields _).weaken fun _ => .behind behind
      · split
        · exact (handle_yields _).weaken fun _ => .inl
        · exact .ok trivial
  refine line.weaken fun f stops => stops.imp_right fun long => ?_
  obtain ⟨starts, unbroken, decimal, long⟩ := long
  have marked := (List.prefix_cons_inj '%').mpr starts
  exact .version (marked.isInfix.trans stands.isInfix) unbroken decimal long

end Tokens

section Following

/-! ### The state of reading -/

/-- What is known of a token of a text without its place: tags have marks, and plain scalars do not
end in a line end. -/
def Token.Fits (s : List Char) : Token → Prop
  | .tag _ _ => '!' ∈ s
  | .scalar true text => text.toList.getLast? ≠ some '\n'
  | _ => True

namespace Layout

/-- The state of reading a text: what is still to be read is the end of the text, and what has been
read fits it. -/
structure Follows (s : List Char) (l : Layout) : Prop where
  rest : l.place.rest <:+ s
  marks : ∀ t, Mark.token t ∈ l.marks → t.Fits s

variable {l : Layout}

namespace Follows

theorem start (s : List Char) : (start s).Follows s where
  rest := List.suffix_rfl
  marks t member := by cases member

theorem moveTo (follows : l.Follows s) {k : Cursor} (later : k.rest <:+ l.place.rest) :
    (l.moveTo k).Follows s :=
  ⟨later.trans follows.rest, follows.marks⟩

theorem upTo (follows : l.Follows s) (r : List Char) : (l.upTo r).Follows s :=
  follows.moveTo (l.place.upTo_suffix r)

theorem forward (follows : l.Follows s) (n : ℕ) : (l.forward n).Follows s :=
  follows.moveTo (l.place.forward_suffix n)

theorem allowKey (follows : l.Follows s) (b : Bool) : (l.allowKey b).Follows s :=
  ⟨follows.rest, follows.marks⟩

theorem depth (follows : l.Follows s) (n : ℕ) : Layout.Follows s { l with depth := n } :=
  ⟨follows.rest, follows.marks⟩

theorem emit (follows : l.Follows s) {t : Token} (fits : t.Fits s) : (l.emit t).Follows s where
  rest := follows.rest
  marks u member := by
    rcases List.mem_cons.mp member with same | member
    · cases same
      exact fits
    · exact follows.marks u member

/-- Giving up a candidate moves nothing. -/
theorem dropCandidate (follows : l.Follows s) :
    Yields (fun m => m.Follows s ∧ m.place = l.place) (· = .malformed) l.dropCandidate := by
  unfold Layout.dropCandidate
  split
  · split
    · exact .error rfl
    · exact .ok ⟨⟨follows.rest, follows.marks⟩, rfl⟩
  · exact .ok ⟨follows, rfl⟩

theorem dropStale (follows : l.Follows s) : Yields (Follows s) (· = .malformed) l.dropStale := by
  unfold Layout.dropStale
  split
  · exact .error rfl
  · exact .ok ⟨follows.rest, follows.marks⟩

theorem noteCandidate (follows : l.Follows s) :
    Yields (fun m => m.Follows s ∧ m.place = l.place) (· = .malformed) l.noteCandidate := by
  unfold Layout.noteCandidate
  split
  · exact .ok ⟨follows, rfl⟩
  · refine follows.dropCandidate.bind fun m ⟨follows, same⟩ => .ok ⟨⟨follows.rest, ?_⟩, same⟩
    intro t member
    rcases List.mem_cons.mp member with slot | member
    · cases slot
    · exact follows.marks t member

theorem mem_unwindTo {t : Token} {column indent : ℤ} {outer : List ℤ} {marks : List Mark}
    (member : Mark.token t ∈ (unwindTo column indent outer marks).2.2) :
    t = .blockEnd ∨ Mark.token t ∈ marks := by
  induction outer generalizing indent marks with
  | nil =>
    unfold unwindTo at member
    split at member
    · simpa using member
    · exact .inr member
  | cons i outer ih =>
    unfold unwindTo at member
    split at member
    · rcases ih member with ended | member
      · exact .inl ended
      · simpa using member
    · exact .inr member

theorem unwind (follows : l.Follows s) (column : ℤ) : (l.unwind column).Follows s := by
  unfold Layout.unwind
  split
  · exact follows
  · refine ⟨follows.rest, fun t member => ?_⟩
    rcases mem_unwindTo member with rfl | member
    · trivial
    · exact follows.marks t member

theorem indentAt (follows : l.Follows s) (column : ℕ) : (l.indentAt column).Follows s := by
  unfold Layout.indentAt
  split
  · exact ⟨follows.rest, follows.marks⟩
  · exact follows

/-- A sequence or mapping may start at a column. -/
theorem opened (follows : l.Follows s) {t : Token} (fits : t.Fits s) (column : ℕ) :
    (if l.isDeeper column then (l.indentAt column).emit t else l).Follows s := by
  split
  · exact (follows.indentAt column).emit fits
  · exact follows

theorem skip (follows : l.Follows s) (fuel : ℕ) : (Layout.skip fuel l).Follows s := by
  induction fuel generalizing l with
  | zero => exact follows
  | succ fuel ih =>
    have later := l.place.skipSpaces.skipComment_suffix.trans (l.place.forward_suffix _)
    unfold Layout.skip
    dsimp only
    split
    · exact ih ((follows.moveTo ((Cursor.step_suffix _).trans later)).allowKey _)
    · exact follows.moveTo later

theorem skipMark (follows : l.Follows s) : l.skipMark.Follows s := by
  unfold Layout.skipMark
  split
  · exact follows.forward 1
  · exact follows

theorem outside (follows : l.Follows s) :
    Yields (fun m => m.Follows s ∧ m.place = l.place) (· = .malformed) l.outside := by
  unfold Layout.outside
  refine (follows.unwind (-1)).dropCandidate.bind fun m ⟨follows, same⟩ => ?_
  refine .ok ⟨follows.allowKey false, same.trans ?_⟩
  unfold Layout.unwind
  split <;> rfl

theorem openBracket (follows : l.Follows s) {t : Token} (fits : t.Fits s) :
    Yields (Follows s) (· = .malformed) (l.openBracket t) := by
  unfold Layout.openBracket
  refine follows.noteCandidate.bind fun m ⟨follows, _⟩ => .ok ?_
  exact (((follows.depth _).allowKey true).forward 1).emit fits

theorem closeBracket (follows : l.Follows s) {t : Token} (fits : t.Fits s) :
    Yields (Follows s) (· = .malformed) (l.closeBracket t) := by
  unfold Layout.closeBracket
  refine follows.dropCandidate.bind fun m ⟨follows, _⟩ => ?_
  dsimp only
  split
  · exact .error rfl
  · exact .ok ((((follows.depth _).allowKey false).forward 1).emit fits)

theorem comma (follows : l.Follows s) : Yields (Follows s) (· = .malformed) l.comma := by
  unfold Layout.comma
  refine (follows.allowKey true).dropCandidate.bind fun m ⟨follows, _⟩ => .ok ?_
  exact (follows.forward 1).emit trivial

theorem item (follows : l.Follows s) : Yields (Follows s) (· = .malformed) l.item := by
  simp only [Layout.item, Outcome.bind_error]
  split
  · exact .error rfl
  · have opened := follows.opened (t := .sequenceStart) trivial l.place.column
    refine (opened.allowKey true).dropCandidate.bind fun m ⟨follows, _⟩ => .ok ?_
    exact (follows.forward 1).emit trivial

/-- The mark of a key, or of a value without one. -/
theorem marked (follows : l.Follows s) {t : Token} (fits : t.Fits s) :
    Yields (Follows s) (· = .malformed) (do
      let m := if l.isDeeper l.place.column then (l.indentAt l.place.column).emit .mappingStart
        else l
      let m ← (m.allowKey (m.depth == 0)).dropCandidate
      .ok ((m.forward 1).emit t)) := by
  have opened := follows.opened (t := .mappingStart) trivial l.place.column
  refine (opened.allowKey _).dropCandidate.bind fun m ⟨follows, _⟩ => .ok ?_
  exact (follows.forward 1).emit fits

theorem key (follows : l.Follows s) : Yields (Follows s) (· = .malformed) l.key := by
  simp only [Layout.key, Outcome.bind_error]
  split
  · exact .error rfl
  · exact follows.marked trivial

theorem value (follows : l.Follows s) : Yields (Follows s) (· = .malformed) l.value := by
  simp only [Layout.value, Outcome.bind_error]
  split
  · next c _ =>
    have indented := follows.indentAt c.place.column
    refine .ok (((Follows.allowKey ?_ false).forward 1).emit trivial)
    exact ⟨indented.rest, indented.marks⟩
  · split
    · exact .error rfl
    · exact follows.marked trivial

/-- A word is read behind its first character. -/
theorem word (follows : l.Follows s) {c : Char} (starts : l.place.rest = c :: r)
    {read : List Char → Except Failure (Token × List Char)}
    (reads : Yields (fun p => p.1.Fits s) (Refuses s) (read r)) :
    Yields (Follows s) (Refuses s) (l.word read) := by
  unfold Layout.word
  refine (follows.noteCandidate.weaken fun _ => .inl).bind fun m ⟨follows, same⟩ => ?_
  rw [same, starts]
  exact reads.bind fun p fits => .ok (((follows.allowKey false).upTo _).emit fits)

theorem plain (follows : l.Follows s) : Yields (Follows s) (· = .malformed) l.plain := by
  unfold Layout.plain Plain.read
  refine follows.noteCandidate.bind fun m ⟨follows, _⟩ => ?_
  have later := Plain.words_suffix (m.depth != 0) m.margin (m.place.rest.length + 1) m.place []
    false
  have last := Plain.getLast?_words (m.depth != 0) m.margin (m.place.rest.length + 1) m.place []
    false
  generalize Plain.words (m.depth != 0) m.margin (m.place.rest.length + 1) m.place [] false = w at *
  refine .ok (((follows.allowKey w.2.1).moveTo later).emit ?_)
  rwa [Token.Fits, String.toList_ofList]

theorem block (follows : l.Follows s) (fold : Bool) :
    Yields (Follows s) (· = .malformed) (l.block fold) := by
  unfold Layout.block
  refine (follows.allowKey true).dropCandidate.bind fun m ⟨follows, _⟩ => ?_
  refine (Block.read_yields fold m.margin m.place.step).bind fun p shorter => .ok ?_
  exact (follows.moveTo (shorter.trans m.place.step_suffix)).emit trivial

theorem directiveLine (follows : l.Follows s) (starts : l.place.rest = '%' :: r) :
    Yields (Follows s) (Refuses s) l.directiveLine := by
  unfold Layout.directiveLine
  refine (follows.outside.weaken fun _ => .inl).bind fun m ⟨follows, same⟩ => ?_
  have stands : '%' :: r <:+ s := by
    rw [← starts, ← same]
    exact follows.rest
  rw [same, starts]
  refine (directive_yields stands).bind fun p _ => ?_
  refine ((Block.lineEnd_yields _).weaken fun _ => .inl).bind fun k shorter => .ok ?_
  refine (follows.moveTo (shorter.trans ?_)).emit trivial
  rw [same]
  exact l.place.upTo_suffix _

theorem marker (follows : l.Follows s) {t : Token} (fits : t.Fits s) :
    Yields (Follows s) (· = .malformed) (l.marker t) := by
  unfold Layout.marker
  exact follows.outside.bind fun m ⟨follows, _⟩ => .ok ((follows.forward 3).emit fits)

theorem finish (follows : l.Follows s) : Yields (Follows s) (· = .malformed) l.finish := by
  unfold Layout.finish
  refine (follows.unwind (-1)).dropCandidate.bind fun m ⟨follows, _⟩ => .ok ?_
  exact follows.emit trivial

/-- A token is read from the character that it starts with. -/
theorem token (follows : l.Follows s) {c : Char} (starts : l.place.rest = c :: r) :
    Yields (Follows s) (Refuses s) (l.token c r) := by
  -- Reading most tokens only fails where a rule is broken.
  have stop {x : Except Failure Layout} (yields : Yields (Follows s) (· = .malformed) x) :
      Yields (Follows s) (Refuses s) x := yields.weaken fun _ => .inl
  have stands : c :: r <:+ s := starts ▸ follows.rest
  have behind : r <:+ s := (List.suffix_cons c r).trans stands
  have name : Yields (fun _ => True) (Refuses s) (anchorName r) :=
    (anchorName_yields r).mono (fun _ _ => trivial) fun _ => .inl
  have tag : Yields (fun _ => True) (Refuses s) (tag r) :=
    (tag_yields r).weaken fun _ => .inl
  have quoted (double : Bool) : Yields (fun _ => True) (Refuses s) (Quoted.read double r) :=
    (Quoted.body_yields double _ behind).mono (fun _ _ => trivial) fun _ => id
  -- Which token is read depends on the character alone, and on the place where it stands.
  unfold Layout.token
  refine .ite (fun percent => ?_) fun _ => ?_
  · obtain ⟨-, rfl⟩ := percent
    exact follows.directiveLine starts
  refine .ite (fun _ => stop (follows.marker trivial)) fun _ => ?_
  refine .ite (fun _ => stop (follows.marker trivial)) fun _ => ?_
  refine .ite (fun _ => stop (follows.openBracket trivial)) fun _ => ?_
  refine .ite (fun _ => stop (follows.openBracket trivial)) fun _ => ?_
  refine .ite (fun _ => stop (follows.closeBracket trivial)) fun _ => ?_
  refine .ite (fun _ => stop (follows.closeBracket trivial)) fun _ => ?_
  refine .ite (fun _ => stop follows.comma) fun _ => ?_
  refine .ite (fun _ => stop follows.item) fun _ => ?_
  refine .ite (fun _ => stop follows.key) fun _ => ?_
  refine .ite (fun _ => stop follows.value) fun _ => ?_
  refine .ite (fun _ => follows.word starts (name.map fun _ _ => trivial)) fun _ => ?_
  refine .ite (fun _ => follows.word starts (name.map fun _ _ => trivial)) fun _ => ?_
  refine .ite (fun mark => ?_) fun _ => ?_
  · have member : '!' ∈ s := stands.subset (mark ▸ List.mem_cons_self)
    exact follows.word starts (tag.map fun _ _ => member)
  refine .ite (fun _ => stop (follows.block false)) fun _ => ?_
  refine .ite (fun _ => stop (follows.block true)) fun _ => ?_
  refine .ite (fun _ => follows.word starts ((quoted false).map fun _ _ => trivial)) fun _ => ?_
  refine .ite (fun _ => follows.word starts ((quoted true).map fun _ _ => trivial)) fun _ => ?_
  exact .ite (fun _ => stop follows.plain) fun _ => .error .malformed

theorem approach (follows : l.Follows s) : Yields (Follows s) (· = .malformed) l.approach := by
  unfold Layout.approach
  exact (follows.skipMark.skip _).dropStale.bind fun m follows => .ok (follows.unwind _)

/-- Reading a token leaves what is still to be read the end of the text, and what is read fits the
text. -/
theorem next (follows : l.Follows s) : Yields (fun p => p.2.Follows s) (Refuses s) l.next := by
  unfold Layout.next
  refine (follows.approach.weaken fun _ => .inl).bind fun m follows => ?_
  split
  · exact (follows.finish.weaken fun _ => .inl).map fun _ => id
  · next c r starts => exact (follows.token starts).map fun _ => id

theorem tokens (follows : l.Follows s) : ∀ t ∈ l.tokens, t.Fits s := by
  intro t member
  rw [tokens_eq] at member
  obtain ⟨mark, read, stands⟩ := List.mem_flatMap.mp member
  cases mark with
  | token u =>
    rw [List.mem_singleton.mp stands]
    exact follows.marks u (List.mem_reverse.mp read)
  | slot n =>
    simp only [resolve] at stands
    split at stands
    · split at stands
      · obtain rfl | rfl : t = .mappingStart ∨ t = .key := by simpa using stands
        · trivial
        · trivial
      · rw [List.mem_singleton.mp stands]
        trivial
    · cases stands

theorem settled (follows : l.Follows s) : ∀ t ∈ l.settled, t.Fits s := by
  intro t member
  rw [settled_eq] at member
  obtain ⟨mark, read, stands⟩ := List.mem_flatMap.mp member
  refine follows.tokens t ?_
  rw [tokens_eq]
  exact List.mem_flatMap.mpr ⟨mark, (List.takeWhile_sublist _).mem read, stands⟩

/-- Reading token by token. -/
theorem scanFrom (follows : l.Follows s) (fuel : ℕ) :
    (∀ t ∈ (Yaml.scanFrom fuel l).1, t.Fits s) ∧ Refuses s (Yaml.scanFrom fuel l).2 := by
  -- Each token takes one unit of fuel, and the state behind it follows the text again.
  induction fuel generalizing l with
  | zero => exact ⟨follows.tokens, .malformed⟩
  | succ fuel ih =>
    have step := follows.next
    unfold Yaml.scanFrom
    cases read : l.next with
    | error f => exact ⟨follows.settled, step.failure read⟩
    | ok p =>
      obtain ⟨last, m⟩ := p
      have follows : m.Follows s := step.answer read
      cases last with
      | true => exact ⟨follows.tokens, .malformed⟩
      | false => exact ih follows

end Follows

end Layout

/-- The tokens of a text fit it, and scanning stops at its end, where a rule of the format is broken
or at a number past its bound. -/
theorem scan_fits (s : List Char) : (∀ t ∈ (scan s).1, t.Fits s) ∧ Refuses s (scan s).2 :=
  (Layout.Follows.start s).scanFrom _

end Following

end Yaml

end Quorum
