import Quorum.Config.Saved
import Quorum.Proofs.Binary64.Decimal
import Quorum.Proofs.Json.Lexer
import Quorum.Yaml.Spelling

/-!
# Written numbers are read back

Numbers are written in the digits and marks of decimals, which plain scalars may hold, and their
spelling tells integers from numbers with a point. An integer is read back unless it has too many
digits. A positive number is written by its shortest decimal, with a point, and is read back bit for
bit.

## Main definitions

* `Yaml.IsNumeric` — texts in the characters of decimals that start with a digit
* `Yaml.Exponent` — the exponents that end a decimal

## Main results

* `Yaml.ofPlain_repr`, `Yaml.integer_repr` — integers
* `Yaml.exists_pointed` — the written form of a positive finite number
* `Yaml.ofPlain_numberText`, `Yaml.float_numberText` — positive numbers
* `Yaml.isNumeric_repr`, `Yaml.IsNumeric.plainFits`, `Yaml.plainFits_numberText` — they are written
  plainly
-/

namespace Quorum

namespace Yaml

-- Where all characters can be enumerated, that would be preferred to the few that a text has.
scoped instance (priority := high) decidableForallMem {α : Type} {P : α → Prop} [DecidablePred P]
    (s : List α) : Decidable (∀ c ∈ s, P c) := List.decidableBAll P s

/-! ### The characters of decimals -/

/-- The characters of decimals. -/
def numberChars : List Char := "0123456789.e+-".toList

/-- Whether a text is written in the characters of decimals and starts with a digit. -/
def IsNumeric (s : List Char) : Prop := (∀ c ∈ s, c ∈ numberChars) ∧ ∃ d ∈ s.head?, d.isDigit = true

/-- What holds of the ten digits holds of every digit. -/
theorem forall_digit {P : Char → Prop} (each : ∀ c ∈ "0123456789".toList, P c) {c : Char}
    (digit : c.isDigit = true) : P c := by
  have code : 48 ≤ c.toNat ∧ c.toNat < 58 := by
    simp only [Char.isDigit, Bool.and_eq_true, decide_eq_true_eq, ge_iff_le] at digit
    exact ⟨digit.1, Nat.lt_succ_of_le digit.2⟩
  have listed : ∀ n < 58, 48 ≤ n → Char.ofNat n ∈ "0123456789".toList := by decide
  exact each c (Char.ofNat_toNat c ▸ listed c.toNat code.2 code.1)

theorem mem_numberChars_of_isDigit {c : Char} (digit : c.isDigit = true) : c ∈ numberChars :=
  forall_digit (by decide) digit

/-- Every list of digits that is not empty is numeric. -/
theorem isNumeric_of_digits {s : List Char} (digits : ∀ c ∈ s, c.isDigit = true)
    (nonempty : s ≠ []) : IsNumeric s := by
  refine ⟨fun c member => mem_numberChars_of_isDigit (digits c member), s.head nonempty,
    List.head_mem_head? nonempty, digits _ (List.head_mem nonempty)⟩

/-- A function that keeps the characters of decimals keeps a text of them. -/
theorem map_of_numberChars {s : List Char} (chars : ∀ c ∈ s, c ∈ numberChars) {f : Char → Char}
    (keeps : ∀ c ∈ numberChars, f c = c) : s.map f = s := by
  conv_rhs => rw [← List.map_id s]
  exact List.map_congr_left fun c member => keeps c (chars c member)

/-- A text without blanks is not trimmed. -/
theorem trim_of_visible {s : List Char} (visible : ∀ c ∈ s, Lenient.isBlank c = false) :
    Lenient.trim s = s := by
  have kept : ∀ t : List Char, (∀ c ∈ t, Lenient.isBlank c = false) →
      t.dropWhile Lenient.isBlank = t := by
    intro t visible
    cases t with
    | nil => rfl
    | cons c t =>
      rw [List.dropWhile_cons_of_neg]
      simp [visible c List.mem_cons_self]
  rw [Lenient.trim, kept s visible, kept s.reverse fun c member =>
    visible c (List.mem_reverse.mp member), List.reverse_reverse]

theorem not_isBlank_of_numberChars : ∀ c ∈ numberChars, Lenient.isBlank c = false := by decide

namespace IsNumeric

variable {s : List Char}

theorem eq_cons (numeric : IsNumeric s) : ∃ d r, s = d :: r ∧ d.isDigit = true := by
  obtain ⟨-, d, head, digit⟩ := numeric
  obtain ⟨r, rfl⟩ := List.head?_eq_some_iff.mp head
  exact ⟨d, r, rfl, digit⟩

/-- A function that keeps the characters of decimals keeps a numeric text. -/
theorem map_eq (numeric : IsNumeric s) {f : Char → Char} (keeps : ∀ c ∈ numberChars, f c = c) :
    s.map f = s :=
  map_of_numberChars numeric.1 keeps

theorem withoutUnderscores_eq (numeric : IsNumeric s) : withoutUnderscores s = s := by
  rw [withoutUnderscores, List.filter_eq_self]
  intro c member
  have keeps : ∀ c ∈ numberChars, (c != '_') = true := by decide
  exact keeps c (numeric.1 c member)

theorem trim_eq (numeric : IsNumeric s) : Lenient.trim s = s :=
  trim_of_visible fun c member => not_isBlank_of_numberChars c (numeric.1 c member)

theorem sign_eq (numeric : IsNumeric s) : Lenient.sign s = (false, s) := by
  obtain ⟨d, r, rfl, digit⟩ := numeric.eq_cons
  have unsigned : ∀ c ∈ "0123456789".toList, ∀ r, Lenient.sign (c :: r) = (false, c :: r) := by
    simp [Lenient.sign]
  exact forall_digit unsigned digit r

/-- A numeric text is written as it is. -/
theorem plainFits (numeric : IsNumeric s) : plainFits s = true := by
  have special : ∀ c ∈ numberChars, isSpecial c = false := by decide
  have breaks : ∀ c ∈ numberChars, isBreak c = false := by decide
  have spaces : ∀ c ∈ numberChars, c ≠ ' ' := by decide
  have inside : ∀ t : List Char, (∀ c ∈ t, c ∈ numberChars) → marksInside t = false := by
    have marks : ∀ c ∈ numberChars, (c == ':') = false ∧ (c == '#') = false := by decide
    intro t chars
    induction t with
    | nil => rfl
    | cons c t ih =>
      cases t with
      | nil => rfl
      | cons d t =>
        rw [marksInside, ih fun e member => chars e (List.mem_cons_of_mem c member)]
        simp [marks d (chars d (by simp))]
  obtain ⟨d, r, rfl, digit⟩ := numeric.eq_cons
  have start : marksStart (d :: r) = false := by
    have each : ∀ c ∈ "0123456789".toList, ∀ r, marksStart (c :: r) = false := by
      simp [marksStart]
    exact forall_digit each digit r
  have first : d ≠ ' ' := spaces d (numeric.1 d List.mem_cons_self)
  have last : (d :: r).getLast? ≠ some ' ' := fun space =>
    spaces _ (numeric.1 _ (List.mem_of_getLast? space)) rfl
  have allowed : (d :: r).any isSpecial = false :=
    List.any_eq_false.mpr fun c member => by simp [special c (numeric.1 c member)]
  have line : isMultiline (d :: r) = false :=
    List.any_eq_false.mpr fun c member => by simp [breaks c (numeric.1 c member)]
  simp [Yaml.plainFits, allowed, line, first, last, start, inside (d :: r) numeric.1]

/-- A numeric text is no word. -/
theorem not_mem (numeric : IsNumeric s) (words : List String)
    (others : ∀ w ∈ words, w.toList.head?.any Char.isDigit = false) :
    String.ofList s ∉ words := by
  intro member
  obtain ⟨-, d, head, digit⟩ := numeric
  have other := others _ member
  rw [String.toList_ofList, Option.mem_def.mp head, Option.any_some, digit] at other
  cases other

/-- The kind of a numeric text is that of a number, or a date. -/
theorem ofPlain_eq (numeric : IsNumeric s) :
    Tag.ofPlain (String.ofList s) = if Tag.isFloat s then .float else if Tag.isInt s then .int
      else if Tag.isDate s then .timestamp else .str := by
  have breaks : ∀ c ∈ numberChars, c ≠ '\n' := by decide
  have spelled : Tag.spelled s = s := by
    rw [Tag.spelled, if_neg]
    simp only [Bool.and_eq_true, not_and, decide_eq_true_eq]
    exact fun last => absurd rfl (breaks _ (numeric.1 _ (List.mem_of_getLast? last)))
  have word (w : String) (other : w.toList.head?.any Char.isDigit = false) :
      (String.ofList s == w) = false := by
    have := numeric.not_mem [w] (by simpa using other)
    simpa using this
  have truth : Tag.truthWords.contains (String.ofList s) = false := by
    have := numeric.not_mem Tag.truthWords (by decide)
    simpa using this
  have null : Tag.nullWords.contains (String.ofList s) = false := by
    have := numeric.not_mem Tag.nullWords (by decide)
    simpa using this
  simp only [Tag.ofPlain, String.toList_ofList, spelled, truth, null, Bool.false_eq_true, if_false,
    word "<<" (by decide), word "=" (by decide), word "!" (by decide), word "&" (by decide),
    word "*" (by decide), Bool.or_self]

end IsNumeric

section Integers

/-! ### Integers -/

theorem isNumeric_toDigits (n : ℕ) : IsNumeric (Nat.toDigits 10 n) :=
  isNumeric_of_digits (fun _ => Json.isDigit_toDigits) Nat.toDigits_ne_nil

theorem isNumeric_repr (n : ℕ) : IsNumeric n.repr.toList := by
  rw [Nat.repr, String.toList_ofList]
  exact isNumeric_toDigits n

/-- Without colons there is one part. -/
theorem parts_eq {s : List Char} (colons : ':' ∉ s) : Tag.parts s = [s] := by
  induction s with
  | nil => rfl
  | cons c s ih =>
    obtain ⟨other, rest⟩ := not_or.mp (List.mem_cons.not.mp colons)
    have tail : Tag.parts s = [s] := ih rest
    unfold Tag.parts at tail ⊢
    rw [List.foldr_cons, tail]
    split <;> simp_all

variable {s : List Char}

/-- Digits alone have no point. -/
theorem isFloat_of_digits (digits : ∀ c ∈ s, c.isDigit = true) (nonempty : s ≠ []) :
    Tag.isFloat s = false := by
  have numeric := isNumeric_of_digits digits nonempty
  have spaced : s.dropWhile Tag.isSpaced = [] :=
    List.dropWhile_eq_nil_iff.mpr fun c member => by simp [Tag.isSpaced, digits c member]
  have point : s.dropWhile (· != '.') = [] := by
    have other : ∀ c ∈ "0123456789".toList, (c != '.') = true := by decide
    exact List.dropWhile_eq_nil_iff.mpr fun c member => forall_digit other (digits c member)
  have words (ws : List String) (others : ∀ w ∈ ws, w.toList.head?.any Char.isDigit = false) :
      ws.contains (String.ofList s) = false := by
    simpa using numeric.not_mem ws others
  have unsigned : Tag.unsigned s = s ∧ Tag.isFraction true s = false := by
    obtain ⟨d, r, rfl, digit⟩ := numeric.eq_cons
    have each : ∀ c ∈ "0123456789".toList, ∀ r, Tag.unsigned (c :: r) = c :: r ∧
        Tag.isFraction true (c :: r) = false := by
      simp [Tag.unsigned, Tag.isFraction]
    exact forall_digit each digit r
  have sixtieth : Tag.isSixtiethFraction s = false := by
    rw [Tag.isSixtiethFraction, point]
  have none : Tag.isFraction false [] = false := rfl
  simp only [Tag.isFloat, unsigned, spaced, none, sixtieth,
    words [".inf", ".Inf", ".INF"] (by decide),
    words [".nan", ".NaN", ".NAN"] (by decide), Bool.and_false, Bool.or_self]

/-- Digits without a zero in front spell an integer. -/
theorem isInt_of_digits (digits : ∀ c ∈ s, c.isDigit = true) (nonempty : s ≠ [])
    (leading : s.head? ≠ some '0' ∨ s.length = 1) : Tag.isInt s = true := by
  obtain ⟨d, r, rfl, digit⟩ := (isNumeric_of_digits digits nonempty).eq_cons
  by_cases zero : d = '0'
  · obtain rfl : r = [] := by simpa [zero] using leading
    subst zero
    rfl
  · have colons : ':' ∉ d :: r := fun member => by simpa using digits _ member
    have each : ∀ c ∈ "0123456789".toList, c ≠ '0' → ∀ r, Tag.parts (c :: r) = [c :: r] →
        Tag.isInt (c :: r) = Tag.isDigits (c :: r) := by
      simp +contextual [Tag.isInt, Tag.unsigned]
    rw [forall_digit each digit zero r (parts_eq colons)]
    have rest : r.all (fun d => d.isDigit || d == '_') = true :=
      List.all_eq_true.mpr fun c member => by simp [digits c (List.mem_cons_of_mem d member)]
    simp [Tag.isDigits, digit, rest]

/-- The decimal text of a natural number spells an integer. -/
theorem ofPlain_repr (n : ℕ) : Tag.ofPlain n.repr = .int := by
  have digits : ∀ c ∈ Nat.toDigits 10 n, c.isDigit = true := fun _ => Json.isDigit_toDigits
  rw [Nat.repr, (isNumeric_toDigits n).ofPlain_eq,
    isFloat_of_digits digits Nat.toDigits_ne_nil,
    isInt_of_digits digits Nat.toDigits_ne_nil (Json.head?_toDigits n)]
  rfl

theorem mapM_digit? (digits : ∀ c ∈ s, c.isDigit = true) :
    s.mapM (digit? 10) = some (s.map fun c => c.toNat - 48) := by
  have each : ∀ c ∈ "0123456789".toList, digit? 10 c = some (c.toNat - 48) := by decide
  induction s with
  | nil => rfl
  | cons c s ih =>
    rw [List.mapM_cons, forall_digit each (digits c List.mem_cons_self),
      ih fun d member => digits d (List.mem_cons_of_mem c member)]
    rfl

/-- Digits are read to the base ten unless there are too many of them. -/
theorem toBase_of_digits (digits : ∀ c ∈ s, c.isDigit = true) (nonempty : s ≠ [])
    (short : s.length ≤ 4300) : toBase 10 s = .ok (Lenient.digitsValue s : ℤ) := by
  have numeric := isNumeric_of_digits digits nonempty
  have plain : s.map Digit.plain = s := numeric.map_eq (by decide)
  have mark : afterMark 10 s = s := by
    unfold afterMark
    split
    · simp
    · rfl
  have values := mapM_digit? digits
  have counted : ¬4300 < (s.map fun c => c.toNat - 48).length := by
    rw [List.length_map]
    omega
  simp only [toBase, plain, numeric.trim_eq, numeric.sign_eq, mark, values, counted, nonempty,
    List.isEmpty_map, List.isEmpty_iff, and_false, if_false, Bool.false_eq_true, List.foldl_map]
  rfl

/-- The decimal text of a natural number is read back unless it has too many digits. -/
theorem integer_repr {n : ℕ} (short : (Nat.toDigits 10 n).length ≤ 4300) :
    integer n.repr.toList = .ok (n : ℤ) := by
  have digits : ∀ c ∈ Nat.toDigits 10 n, c.isDigit = true := fun _ => Json.isDigit_toDigits
  have nonempty : Nat.toDigits 10 n ≠ [] := Nat.toDigits_ne_nil
  have leading := Json.head?_toDigits n
  have value : Lenient.digitsValue (Nat.toDigits 10 n) = n := Json.digitsValue_toDigits n
  have colons : ':' ∉ Nat.toDigits 10 n := fun member => by simpa using digits _ member
  have based := toBase_of_digits digits nonempty short
  rw [Nat.repr, String.toList_ofList, integer, (isNumeric_toDigits n).withoutUnderscores_eq]
  rw [value] at based
  generalize Nat.toDigits 10 n = s at *
  obtain ⟨d, r, rfl, digit⟩ := (isNumeric_of_digits digits nonempty).eq_cons
  by_cases zero : d = '0'
  · obtain rfl : r = [] := by simpa [zero] using leading
    subst zero
    rw [← value]
    rfl
  · have each : ∀ c ∈ "0123456789".toList, c ≠ '0' → ∀ r, ':' ∉ c :: r →
        unsignedInteger (c :: r) = toBase 10 (c :: r) := by
      simp +contextual [unsignedInteger]
    have signs : ∀ c ∈ "0123456789".toList, c ≠ '-' ∧ c ≠ '+' := by decide
    obtain ⟨minus, plus⟩ := forall_digit signs digit
    rw [← based, ← forall_digit each digit zero r colons]
    split
    · simp_all
    · simp_all
    · simp_all
    · rfl

end Integers

section Decimals

/-! ### Numbers with a point -/

theorem digitsValue_append (s t : List Char) :
    Lenient.digitsValue (s ++ t) = 10 ^ t.length * Lenient.digitsValue s + Lenient.digitsValue t :=
  (Nat.ofDigitChars_append (b := 10) 0).trans Nat.ofDigitChars_eq_ofDigitChars_zero

theorem digitsValue_replicate (n : ℕ) : Lenient.digitsValue (List.replicate n '0') = 0 := by
  induction n with
  | zero => rfl
  | succ n ih =>
    rw [List.replicate_succ', digitsValue_append, ih]
    rfl

/-- The ends of decimals: an exponent with a sign, or nothing. -/
inductive Exponent : ℤ → List Char → Prop
  | none : Exponent 0 []
  | positive {ds : List Char} (digits : ∀ c ∈ ds, c.isDigit = true) (nonempty : ds ≠ []) :
    Exponent (Lenient.digitsValue ds) ('e' :: '+' :: ds)
  | negative {ds : List Char} (digits : ∀ c ∈ ds, c.isDigit = true) (nonempty : ds ≠ []) :
    Exponent (-Lenient.digitsValue ds) ('e' :: '-' :: ds)

namespace Exponent

variable {e : ℤ} {tail : List Char}

theorem exponent?_eq (ends : Exponent e tail) : Lenient.exponent? tail = some e := by
  cases ends with
  | none => rfl
  | positive digits nonempty =>
    have all := List.all_eq_true.mpr digits
    simp [Lenient.exponent?, Lenient.sign, all, nonempty]
  | negative digits nonempty =>
    have all := List.all_eq_true.mpr digits
    simp [Lenient.exponent?, Lenient.sign, all, nonempty]

theorem isExponent_eq (ends : Exponent e tail) : Tag.isExponent tail = true := by
  cases ends with
  | none => rfl
  | positive digits nonempty =>
    have all := List.all_eq_true.mpr digits
    simp [Tag.isExponent, all, nonempty]
  | negative digits nonempty =>
    have all := List.all_eq_true.mpr digits
    simp [Tag.isExponent, all, nonempty]

theorem mem_numberChars (ends : Exponent e tail) : ∀ c ∈ tail, c ∈ numberChars := by
  cases ends with
  | none => simp
  | positive digits nonempty =>
    simp only [List.forall_mem_cons]
    exact ⟨by decide, by decide, fun c member => mem_numberChars_of_isDigit (digits c member)⟩
  | negative digits nonempty =>
    simp only [List.forall_mem_cons]
    exact ⟨by decide, by decide, fun c member => mem_numberChars_of_isDigit (digits c member)⟩

theorem eq_of_head? (ends : Exponent e tail) : ∀ c ∈ tail.head?, c = 'e' := by
  cases ends <;> simp

theorem point_not_mem (ends : Exponent e tail) : '.' ∉ tail := by
  cases ends with
  | none => simp
  | positive digits nonempty => simpa using fun member => by simpa using digits _ member
  | negative digits nonempty => simpa using fun member => by simpa using digits _ member

end Exponent

/-- A decimal with digits on both sides of its point. -/
structure Pointed where
  /-- The digits before the point. -/
  whole : List Char
  /-- The digits behind the point. -/
  frac : List Char
  /-- What stands behind the digits. -/
  tail : List Char
  exponent : ℤ
  whole_digits : ∀ c ∈ whole, c.isDigit = true
  whole_nonempty : whole ≠ []
  frac_digits : ∀ c ∈ frac, c.isDigit = true
  frac_nonempty : frac ≠ []
  /-- What stands behind the digits is the exponent. -/
  ends : Exponent exponent tail

namespace Pointed

/-- The text of a decimal. -/
def text (p : Pointed) : List Char := p.whole ++ '.' :: (p.frac ++ p.tail)

/-- The digits of a decimal as one number. -/
def digits (p : Pointed) : ℕ := Lenient.digitsValue (p.whole ++ p.frac)

/-- The exponent of the last digit. -/
def place (p : Pointed) : ℤ := p.exponent - p.frac.length

variable (p : Pointed)

theorem isNumeric_text : IsNumeric p.text := by
  obtain ⟨d, r, whole⟩ := List.exists_cons_of_ne_nil p.whole_nonempty
  constructor
  · simp only [text, List.forall_mem_append, List.forall_mem_cons]
    exact ⟨fun c member => mem_numberChars_of_isDigit (p.whole_digits c member), by decide,
      fun c member => mem_numberChars_of_isDigit (p.frac_digits c member), p.ends.mem_numberChars⟩
  · rw [text, whole]
    exact ⟨d, rfl, p.whole_digits d (whole ▸ List.mem_cons_self)⟩

/-- The digits in front of something else. -/
theorem span_digits {f : Char → Bool} {s t : List Char} (all : ∀ c ∈ s, f c = true)
    (ends : ∀ c ∈ t.head?, f c = false) :
    (s ++ t).takeWhile f = s ∧ (s ++ t).dropWhile f = t := by
  have rest : t.takeWhile f = [] ∧ t.dropWhile f = t := by
    cases t with
    | nil => exact ⟨rfl, rfl⟩
    | cons c t => simp [ends c rfl]
  rw [List.takeWhile_append_of_pos all, List.dropWhile_append_of_pos all, rest.1, rest.2,
    List.append_nil]
  exact ⟨rfl, rfl⟩

theorem isFloat_text : Tag.isFloat p.text = true := by
  obtain ⟨-, point⟩ := span_digits (f := Tag.isSpaced) (s := p.whole)
    (t := '.' :: (p.frac ++ p.tail))
    (fun c member => by simp [Tag.isSpaced, p.whole_digits c member]) (by simp [Tag.isSpaced])
  obtain ⟨-, rest⟩ := span_digits (f := Tag.isSpaced) (s := p.frac) (t := p.tail)
    (fun c member => by simp [Tag.isSpaced, p.frac_digits c member])
    (fun c head => by rw [p.ends.eq_of_head? c head]; rfl)
  obtain ⟨d, r, shape, digit⟩ := p.isNumeric_text.eq_cons
  have unsigned : Tag.unsigned p.text = p.text := by
    have each : ∀ c ∈ "0123456789".toList, ∀ r, Tag.unsigned (c :: r) = c :: r := by
      simp [Tag.unsigned]
    rw [shape, forall_digit each digit r]
  have head : p.text.head?.any Char.isDigit = true := by simp [shape, digit]
  have fraction : Tag.isFraction false (p.text.dropWhile Tag.isSpaced) = true := by
    rw [text, point]
    simp [Tag.isFraction, rest, p.ends.isExponent_eq]
  simp [Tag.isFloat, unsigned, head, fraction]

theorem decimal?_text :
    Lenient.decimal? false p.text = some (Binary64.ofDecimal false p.digits p.place) := by
  obtain ⟨whole, point⟩ := span_digits (t := '.' :: (p.frac ++ p.tail)) p.whole_digits (by simp)
  obtain ⟨frac, rest⟩ := span_digits (t := p.tail) p.frac_digits
    (fun c head => by rw [p.ends.eq_of_head? c head]; rfl)
  simp [Lenient.decimal?, text, whole, point, frac, rest, p.whole_nonempty, p.ends.exponent?_eq,
    digits, place]

/-- A decimal is read as the number that is nearest to it. -/
theorem float_text : Yaml.float p.text = .ok (Binary64.ofDecimal false p.digits p.place) := by
  have numeric := p.isNumeric_text
  have lower : p.text.map Char.toLower = p.text := numeric.map_eq (by decide)
  have plain : p.text.map Digit.plain = p.text := numeric.map_eq (by decide)
  have colons : ':' ∉ p.text := fun member => by
    have := numeric.1 _ member
    revert this
    decide
  have words (w : String) (other : w.toList.head?.any Char.isDigit = false) :
      String.ofList p.text ≠ w := by
    have := numeric.not_mem [w] (by simpa using other)
    simpa using this
  have inf : Lenient.isWord "inf" p.text = false ∧ Lenient.isWord "infinity" p.text = false ∧
      Lenient.isWord "nan" p.text = false := by
    obtain ⟨d, r, shape, digit⟩ := numeric.eq_cons
    have each : ∀ c ∈ "0123456789".toList, c.toLower ≠ 'i' ∧ c.toLower ≠ 'n' := by decide
    obtain ⟨i, n⟩ := forall_digit each digit
    simp [Lenient.isWord, shape, i, n]
  have read : Lenient.float? p.text = some (Binary64.ofDecimal false p.digits p.place) := by
    simp [Lenient.float?, Lenient.plainFloat?, numeric.trim_eq, numeric.sign_eq, inf,
      p.decimal?_text]
  have unsigned : unsignedFloat p.text = .ok (Binary64.ofDecimal false p.digits p.place) := by
    simp [unsignedFloat, words ".inf" (by decide), words ".nan" (by decide), colons, plainFloat,
      plain, read]
  obtain ⟨d, r, shape, digit⟩ := numeric.eq_cons
  have signs : ∀ c ∈ "0123456789".toList, c ≠ '-' ∧ c ≠ '+' := by decide
  obtain ⟨minus, plus⟩ := forall_digit signs digit
  rw [float, numeric.withoutUnderscores_eq, lower, ← unsigned, shape]
  split
  · simp_all
  · simp_all
  · simp_all
  · rfl

end Pointed

/-- A text with a point, which is put in front of the exponent where there is none. -/
def withPoint (s : List Char) : List Char :=
  if s.contains '.' then s
  else s.takeWhile (· != 'e') ++ (if s.contains 'e' then ".0".toList else []) ++
    s.dropWhile (· != 'e')

theorem isDigit_replicate (n : ℕ) : ∀ c ∈ List.replicate n '0', c.isDigit = true := by
  intro c member
  rw [List.eq_of_mem_replicate member]
  rfl

/-- Zeros behind the digits of a decimal raise its exponent. -/
theorem decimalValue_mul_pow (digits n : ℕ) (k : ℤ) :
    Binary64.decimalValue (10 ^ n * digits) k = Binary64.decimalValue digits (k + n) := by
  rw [Binary64.decimalValue, Binary64.decimalValue, zpow_add₀ (by norm_num), zpow_natCast]
  push_cast
  ring

theorem exponent_exponentDigits (e : ℤ) :
    Exponent e ('e' :: (if e < 0 then '-' else '+') :: Binary64.exponentDigits e.natAbs) := by
  have digits : ∀ c ∈ Binary64.exponentDigits e.natAbs, c.isDigit = true := by
    unfold Binary64.exponentDigits
    split
    · exact List.forall_mem_cons.mpr ⟨rfl, fun _ => Json.isDigit_toDigits⟩
    · exact fun _ => Json.isDigit_toDigits
  have nonempty : Binary64.exponentDigits e.natAbs ≠ [] := by
    unfold Binary64.exponentDigits
    split
    · exact List.cons_ne_nil _ _
    · exact Nat.toDigits_ne_nil
  have value : Lenient.digitsValue (Binary64.exponentDigits e.natAbs) = e.natAbs := by
    have read : Lenient.digitsValue (Binary64.digitsOf e.natAbs) = e.natAbs :=
      Json.digitsValue_toDigits _
    unfold Binary64.exponentDigits
    split
    · exact (digitsValue_append ['0'] (Binary64.digitsOf e.natAbs)).trans
        (by rw [read]; simp [Lenient.digitsValue])
    · exact read
  split
  · next negative =>
    have ends := Exponent.negative digits nonempty
    rwa [value, Int.ofNat_natAbs_of_nonpos negative.le, neg_neg] at ends
  · next nonneg =>
    have ends := Exponent.positive digits nonempty
    rwa [value, Int.natAbs_of_nonneg (not_lt.mp nonneg)] at ends

namespace Pointed

variable {ds tail : List Char} {e : ℤ}

/-- A point among the digits. -/
theorem exists_among (digits : ∀ c ∈ ds, c.isDigit = true) {n : ℕ} (some : 0 < n)
    (inside : n < ds.length) (ends : Exponent e tail) :
    ∃ p : Pointed, p.text = ds.take n ++ '.' :: (ds.drop n ++ tail) ∧
      Binary64.decimalValue p.digits p.place =
        Binary64.decimalValue (Lenient.digitsValue ds) (e + n - ds.length) := by
  refine ⟨⟨ds.take n, ds.drop n, tail, e, fun c member => digits c (List.mem_of_mem_take member),
    ?_, fun c member => digits c (List.mem_of_mem_drop member), ?_, ends⟩, rfl, ?_⟩
  · have taken : (ds.take n).length = n := List.length_take_of_le inside.le
    exact List.length_pos_iff.mp (by omega)
  · have dropped : (ds.drop n).length = ds.length - n := List.length_drop
    exact List.length_pos_iff.mp (by omega)
  · rw [Pointed.digits, Pointed.place, List.take_append_drop]
    refine congrArg (Binary64.decimalValue _) ?_
    simp only [List.length_drop]
    omega

/-- Zeros up to the point, and one behind it. -/
theorem exists_padded (digits : ∀ c ∈ ds, c.isDigit = true) (nonempty : ds ≠ []) (n : ℕ)
    (ends : Exponent e tail) :
    ∃ p : Pointed, p.text = ds ++ List.replicate n '0' ++ '.' :: '0' :: tail ∧
      Binary64.decimalValue p.digits p.place =
        Binary64.decimalValue (Lenient.digitsValue ds) (e + n) := by
  refine ⟨⟨ds ++ List.replicate n '0', ['0'], tail, e,
    List.forall_mem_append.mpr ⟨digits, isDigit_replicate n⟩, by simp [nonempty], by simp, by simp,
    ends⟩, rfl, ?_⟩
  rw [Pointed.digits, Pointed.place, digitsValue_append, digitsValue_append, digitsValue_replicate,
    Nat.add_zero, show Lenient.digitsValue ['0'] = 0 from rfl, Nat.add_zero, decimalValue_mul_pow,
    decimalValue_mul_pow, List.length_replicate]
  refine congrArg (Binary64.decimalValue _) ?_
  simp only [List.length_cons, List.length_nil]
  omega

/-- Zeros behind the point, and then the digits. -/
theorem exists_behind (digits : ∀ c ∈ ds, c.isDigit = true) (nonempty : ds ≠ []) (n : ℕ) :
    ∃ p : Pointed, p.text = '0' :: '.' :: (List.replicate n '0' ++ ds) ∧
      Binary64.decimalValue p.digits p.place =
        Binary64.decimalValue (Lenient.digitsValue ds) (-(n + ds.length)) := by
  refine ⟨⟨['0'], List.replicate n '0' ++ ds, [], 0, by simp, by simp,
    List.forall_mem_append.mpr ⟨isDigit_replicate n, digits⟩, by simp [nonempty], .none⟩, ?_, ?_⟩
  · rw [Pointed.text, List.append_nil]
    rfl
  · rw [Pointed.digits, Pointed.place, digitsValue_append, digitsValue_append,
      digitsValue_replicate, show Lenient.digitsValue ['0'] = 0 from rfl, Nat.mul_zero,
      Nat.mul_zero, Nat.zero_add, Nat.zero_add, List.length_append, List.length_replicate]
    refine congrArg (Binary64.decimalValue _) ?_
    dsimp only
    omega

end Pointed

theorem withPoint_of_mem {s : List Char} (point : '.' ∈ s) : withPoint s = s :=
  if_pos (by simpa using point)

/-- A single digit with an exponent gets a point and a zero. -/
theorem withPoint_of_not_mem {ds tail : List Char} {e : ℤ} (digits : ∀ c ∈ ds, c.isDigit = true)
    (ends : Exponent e ('e' :: tail)) :
    withPoint (ds ++ 'e' :: tail) = ds ++ '.' :: '0' :: 'e' :: tail := by
  have unmarked : ∀ c ∈ ds, (c != 'e') = true := by
    have each : ∀ c ∈ "0123456789".toList, (c != 'e') = true := by decide
    exact fun c member => forall_digit each (digits c member)
  obtain ⟨before, behind⟩ := Pointed.span_digits (t := 'e' :: tail) unmarked (by simp)
  have point : (ds ++ 'e' :: tail).contains '.' = false := by
    have digit : '.' ∉ ds := fun member => by simpa using digits _ member
    rw [← Bool.not_eq_true, List.contains_iff_mem, List.mem_append]
    exact not_or.mpr ⟨digit, ends.point_not_mem⟩
  have mark : (ds ++ 'e' :: tail).contains 'e' = true := by simp
  simp only [withPoint, point, mark, before, behind, Bool.false_eq_true, if_false, if_true]
  simp

/-- The layout of a decimal with a point, and the value that is read from it. -/
theorem exists_pointed {digits : ℕ} (nonzero : digits ≠ 0) (k : ℤ) :
    ∃ p : Pointed, p.text = withPoint (Binary64.layout digits k) ∧
      Binary64.decimalValue p.digits p.place = Binary64.decimalValue digits k := by
  have ds_digits : ∀ c ∈ Binary64.digitsOf digits, c.isDigit = true :=
    fun _ => Json.isDigit_toDigits
  have ds_nonempty : Binary64.digitsOf digits ≠ [] := Nat.toDigits_ne_nil
  have value : Lenient.digitsValue (Binary64.digitsOf digits) = digits :=
    Json.digitsValue_toDigits digits
  unfold Binary64.layout
  simp only [nonzero, if_false]
  generalize Binary64.digitsOf digits = ds at *
  have length_pos := List.length_pos_iff.mpr ds_nonempty
  split
  · split
    · -- The digits end in front of the point.
      obtain ⟨p, text, same⟩ := Pointed.exists_padded ds_digits ds_nonempty k.toNat .none
      refine ⟨p, ?_, ?_⟩
      · rw [text, withPoint_of_mem (by simp)]
        rfl
      · rw [same, value, show (0 : ℤ) + (k.toNat : ℤ) = k by omega]
    · split
      · obtain ⟨p, text, same⟩ := Pointed.exists_among ds_digits
          (n := (k + ds.length - 1).toNat + 1) (by omega) (by omega) .none
        refine ⟨p, ?_, ?_⟩
        · rw [text, withPoint_of_mem (by simp), List.append_nil]
        · rw [same, value]
          refine congrArg (Binary64.decimalValue digits) ?_
          omega
      · obtain ⟨p, text, same⟩ :=
          Pointed.exists_behind ds_digits ds_nonempty (-(k + ds.length - 1) - 1).toNat
        refine ⟨p, ?_, ?_⟩
        · rw [text, withPoint_of_mem (by simp)]
          rfl
        · rw [same, value]
          refine congrArg (Binary64.decimalValue digits) ?_
          omega
  · have ends := exponent_exponentDigits (k + ds.length - 1)
    split
    · -- A single digit has no point in the layout.
      obtain ⟨p, text, same⟩ := Pointed.exists_padded ds_digits ds_nonempty 0 ends
      refine ⟨p, ?_, ?_⟩
      · rw [text, withPoint_of_not_mem ds_digits ends, List.replicate_zero, List.append_nil]
      · rw [same, value]
        refine congrArg (Binary64.decimalValue digits) ?_
        omega
    · obtain ⟨p, text, same⟩ := Pointed.exists_among ds_digits zero_lt_one (by omega) ends
      refine ⟨p, ?_, ?_⟩
      · rw [text, withPoint_of_mem (by simp), List.append_assoc, List.cons_append]
      · rw [same, value]
        refine congrArg (Binary64.decimalValue digits) ?_
        omega

/-- The parts of a positive number other than infinity. -/
theorem exists_ratio {x : Binary64} (positive : Binary64.lt (.zero false) x = true)
    (finite : x.isInfinite = false) :
    x.isNaN = false ∧ x.isNegative = false ∧ ∃ num den, x.ratio? = some (num, den) ∧ num ≠ 0 := by
  simp only [Binary64.lt, Bool.and_eq_true, Bool.not_eq_true', decide_eq_true_eq] at positive
  obtain ⟨⟨-, number⟩, rank⟩ := positive
  have zero : (Binary64.zero false).rank = 0 := by decide
  rw [zero, Binary64.rank] at rank
  have sign : x.isNegative = false := by
    by_contra negative
    rw [if_pos (by simpa using negative)] at rank
    have := Nat.zero_le (x.exponentField * 2 ^ 52 + x.fractionField)
    simp only [Nat.pow_eq] at rank
    push_cast at rank
    omega
  rw [sign, if_neg Bool.false_ne_true, Nat.pow_eq] at rank
  have bounded : x.exponentField ≠ 2047 := by
    intro last
    simp [Binary64.isInfinite, Binary64.isNaN, last] at finite number
    exact finite number
  refine ⟨number, sign, ?_⟩
  simp only [Binary64.ratio?, Binary64.magnitude?, bounded, if_false, Nat.pow_eq]
  split
  · next subnormal =>
    have nonzero : x.fractionField ≠ 0 := by
      rw [subnormal] at rank
      push_cast at rank
      omega
    exact ⟨_, _, rfl, nonzero⟩
  · next normal =>
    simp only [Option.map_some]
    split
    · exact ⟨_, _, rfl, by positivity⟩
    · exact ⟨_, _, rfl, by positivity⟩

/-- The written form of a positive number other than infinity is a decimal with a point that is
read back. -/
theorem exists_text_eq_numberText {x : Binary64} (positive : Binary64.lt (.zero false) x = true)
    (finite : x.isInfinite = false) :
    ∃ p : Pointed, Config.numberText x = String.ofList p.text ∧
      Binary64.ofDecimal false p.digits p.place = x := by
  obtain ⟨number, sign, num, den, ratio, nonzero⟩ := exists_ratio positive finite
  obtain ⟨digits_ne, reads⟩ := Binary64.ofDecimal_shortest ratio nonzero
  obtain ⟨p, text, value⟩ := exists_pointed digits_ne x.shortest.2
  have plain : x.text.toList = Binary64.layout x.shortest.1 x.shortest.2 := by
    simp [Binary64.text, number, sign, finite]
  refine ⟨p, ?_, ?_⟩
  · rw [text, ← plain, Config.numberText, finite, number, withPoint]
    simp only [Bool.false_eq_true, if_false]
    split
    · exact String.ofList_toList.symm
    · rfl
  · rw [Binary64.ofDecimal_congr false value, ← sign, reads]

/-- The only positive number that is infinite. -/
theorem eq_infinity {x : Binary64} (positive : Binary64.lt (.zero false) x = true)
    (infinite : x.isInfinite = true) : x = .infinity false := by
  have whole := Binary64.ofFields_fields x
  simp only [Binary64.isInfinite, Bool.and_eq_true, beq_iff_eq] at infinite
  rw [infinite.1, infinite.2] at whole
  cases sign : x.isNegative with
  | false => rw [← whole, sign]; rfl
  | true =>
    rw [sign] at whole
    rw [← whole] at positive
    exact absurd positive (by decide)

/-- A positive number is read back bit for bit from its written form. -/
theorem float_numberText {x : Binary64} (positive : Binary64.lt (.zero false) x = true) :
    Yaml.float (Config.numberText x).toList = .ok x := by
  cases infinite : x.isInfinite with
  | true =>
    obtain rfl := eq_infinity positive infinite
    rfl
  | false =>
    obtain ⟨p, text, reads⟩ := exists_text_eq_numberText positive infinite
    rw [text, String.toList_ofList, p.float_text, reads]

/-- The written form of a positive number spells a number with a point. -/
theorem ofPlain_numberText {x : Binary64} (positive : Binary64.lt (.zero false) x = true) :
    Tag.ofPlain (Config.numberText x) = .float := by
  cases infinite : x.isInfinite with
  | true =>
    obtain rfl := eq_infinity positive infinite
    decide
  | false =>
    obtain ⟨p, text, -⟩ := exists_text_eq_numberText positive infinite
    rw [text, p.isNumeric_text.ofPlain_eq, p.isFloat_text]
    rfl

/-- The written form of a positive number needs no quotes. -/
theorem plainFits_numberText {x : Binary64} (positive : Binary64.lt (.zero false) x = true) :
    plainFits (Config.numberText x).toList = true := by
  cases infinite : x.isInfinite with
  | true =>
    obtain rfl := eq_infinity positive infinite
    decide
  | false =>
    obtain ⟨p, text, -⟩ := exists_text_eq_numberText positive infinite
    rw [text, String.toList_ofList]
    exact p.isNumeric_text.plainFits

end Decimals

end Yaml

end Quorum
