import Quorum.Proofs.Outcome
import Quorum.Proofs.Yaml.Number

/-!
# Spellings have values

A plain scalar takes its kind from its spelling, so it is spelled like a value of its kind. The
spellings are a little wider than the values: they take days that no month has, integers with any
number of digits, the mark of a base without any digit behind it, and any number of parts to base
sixty. Nothing else goes wrong with them.

## Main definitions

* `Yaml.Failure.OfSpelling` — what goes wrong with a text that is spelled like a value

## Main results

* `Yaml.integer_yields`, `Yaml.float_yields`, `Yaml.date_yields` — integers, other numbers and dates
* `Yaml.datum_ofPlain` — plain scalars
-/

namespace Quorum

namespace Yaml

open Outcome (Yields)

/-- What goes wrong with a text that is spelled like a value of its kind. -/
inductive Failure.OfSpelling : Failure → Prop
  | calendar (cause : CalendarFault) : OfSpelling (.calendar cause)
  | digits {n : ℕ} (long : 4300 < n) : OfSpelling (.digits n)
  /-- The mark of base two or sixteen without a digit behind it. -/
  | mark {base : ℕ} (marked : base = 2 ∨ base = 16) : OfSpelling (.integer base "")
  | numberSize : OfSpelling .numberSize

variable {s t u : List Char}

section Parts

/-! ### Parts between colons -/

theorem exists_parts (s : List Char) : ∃ p ps, Tag.parts s = p :: ps := by
  cases s with
  | nil => exact ⟨[], [], rfl⟩
  | cons c s =>
    unfold Tag.parts
    rw [List.foldr_cons]
    split <;> exact ⟨_, _, rfl⟩

theorem parts_colon (s : List Char) : Tag.parts (':' :: s) = [] :: Tag.parts s := rfl

theorem parts_cons {c : Char} (other : c ≠ ':') {p : List Char} {ps : List (List Char)}
    (parts : Tag.parts s = p :: ps) : Tag.parts (c :: s) = (c :: p) :: ps := by
  unfold Tag.parts at parts ⊢
  rw [List.foldr_cons, parts]
  split <;> simp_all

/-- Parts are taken between colons, so the first part starts the text. -/
theorem isPrefix_of_parts {p : List Char} {ps : List (List Char)} (parts : Tag.parts s = p :: ps) :
    p <+: s := by
  induction s generalizing p ps with
  | nil =>
    cases parts
    exact List.nil_prefix
  | cons c s ih =>
    obtain ⟨q, qs, tail⟩ := exists_parts s
    by_cases colon : c = ':'
    · subst colon
      cases parts
      exact List.nil_prefix
    · rw [parts_cons colon tail] at parts
      cases parts
      exact List.cons_prefix_cons.mpr ⟨rfl, ih tail⟩

theorem parts_filter {f : Char → Bool} (colon : f ':' = true) (s : List Char) :
    Tag.parts (s.filter f) = (Tag.parts s).map (List.filter f) := by
  induction s with
  | nil => rfl
  | cons c s ih =>
    obtain ⟨p, ps, tail⟩ := exists_parts s
    rw [tail, List.map_cons] at ih
    by_cases other : c = ':'
    · subst other
      rw [List.filter_cons_of_pos colon, parts_colon, parts_colon, tail, ih]
      rfl
    · rw [parts_cons other tail]
      cases kept : f c with
      | true => rw [List.filter_cons_of_pos kept, parts_cons other ih, List.map_cons,
          List.filter_cons_of_pos kept]
      | false => rw [List.filter_cons_of_neg (by simp [kept]), ih, List.map_cons,
          List.filter_cons_of_neg (by simp [kept])]

/-- What holds no colon lengthens the last part. -/
theorem exists_parts_append (colons : ':' ∉ t) (s : List Char) :
    ∃ ps p, Tag.parts s = ps ++ [p] ∧ Tag.parts (s ++ t) = ps ++ [p ++ t] := by
  induction s with
  | nil => exact ⟨[], [], rfl, parts_eq colons⟩
  | cons c s ih =>
    obtain ⟨ps, p, before, behind⟩ := ih
    by_cases colon : c = ':'
    · subst colon
      exact ⟨[] :: ps, p, by rw [parts_colon, before]; rfl,
        by rw [List.cons_append, parts_colon, behind]; rfl⟩
    · cases ps with
      | nil => exact ⟨[], c :: p, parts_cons colon before, parts_cons colon behind⟩
      | cons q ps => exact ⟨(c :: q) :: ps, p, parts_cons colon before, parts_cons colon behind⟩

/-- What is no colon stands in a part. -/
theorem exists_mem_parts {c : Char} (member : c ∈ s) : c = ':' ∨ ∃ p ∈ Tag.parts s, c ∈ p := by
  induction s with
  | nil => cases member
  | cons d s ih =>
    obtain ⟨p, ps, tail⟩ := exists_parts s
    by_cases colon : d = ':'
    · subst colon
      rw [parts_colon]
      rcases List.mem_cons.mp member with here | there
      · exact .inl here
      · exact (ih there).imp_right fun ⟨q, part, holds⟩ => ⟨q, List.mem_cons_of_mem _ part, holds⟩
    · rw [parts_cons colon tail]
      rw [tail] at ih
      rcases List.mem_cons.mp member with rfl | there
      · exact .inr ⟨_, List.mem_cons_self, List.mem_cons_self⟩
      · refine (ih there).imp_right fun ⟨q, part, holds⟩ => ?_
        rcases List.mem_cons.mp part with rfl | part
        · exact ⟨_, List.mem_cons_self, List.mem_cons_of_mem d holds⟩
        · exact ⟨q, List.mem_cons_of_mem _ part, holds⟩

end Parts

section Digits

/-! ### Digits and underscores -/

/-- What holds of the characters of a range holds of a character between its ends. -/
theorem forall_between {P : Char → Prop} {a b : Char}
    (each : ∀ n ≤ b.toNat, a.toNat ≤ n → P (Char.ofNat n)) {c : Char} (low : a ≤ c) (high : c ≤ b) :
    P c := by
  rw [Char.le_def, UInt32.le_iff_toNat_le] at low high
  exact Char.ofNat_toNat c ▸ each c.toNat high low

/-- What holds of the digits to base sixteen holds of every character with a value. -/
theorem forall_hexDigit {P : Char → Prop} (each : ∀ c ∈ "0123456789abcdefABCDEF".toList, P c)
    {c : Char} (value : (Bytes.hexValue? c).isSome = true) : P c := by
  refine each c ?_
  unfold Bytes.hexValue? at value
  split_ifs at value with decimal lower upper
  · exact forall_between (by decide) decimal.1 decimal.2
  · exact forall_between (by decide) lower.1 lower.2
  · exact forall_between (by decide) upper.1 upper.2
  · cases value

theorem withoutUnderscores_append (s t : List Char) :
    withoutUnderscores (s ++ t) = withoutUnderscores s ++ withoutUnderscores t :=
  List.filter_append ..

theorem withoutUnderscores_cons {c : Char} (other : c ≠ '_') (s : List Char) :
    withoutUnderscores (c :: s) = c :: withoutUnderscores s :=
  List.filter_cons_of_pos (by simpa using other)

/-- Between underscores there are digits. -/
theorem isDigit_withoutUnderscores (spaced : ∀ c ∈ s, Tag.isSpaced c = true) :
    ∀ c ∈ withoutUnderscores s, c.isDigit = true := by
  intro c member
  obtain ⟨member, other⟩ := List.mem_filter.mp member
  have := spaced c member
  simp_all [Tag.isSpaced]

/-- A text of digits and underscores that starts with a digit. -/
theorem digits_of_isDigits (digits : Tag.isDigits s = true) :
    (∀ c ∈ withoutUnderscores s, c.isDigit = true) ∧ withoutUnderscores s ≠ [] := by
  cases s with
  | nil => cases digits
  | cons c s =>
    rw [Tag.isDigits, Bool.and_eq_true, List.all_eq_true] at digits
    obtain ⟨first, others⟩ := digits
    have visible : c ≠ '_' := by
      rintro rfl
      cases first
    rw [withoutUnderscores_cons visible]
    exact ⟨List.forall_mem_cons.mpr ⟨first, isDigit_withoutUnderscores others⟩,
      List.cons_ne_nil _ _⟩

/-- A part below sixty has digits only. -/
theorem digits_of_isSixtieth (sixtieth : Tag.isSixtieth s = true) :
    (∀ c ∈ withoutUnderscores s, c.isDigit = true) ∧ withoutUnderscores s ≠ [] := by
  refine digits_of_isDigits ?_
  unfold Tag.isSixtieth at sixtieth
  split at sixtieth
  · simp [Tag.isDigits, sixtieth]
  · simp_all [Tag.isDigits]
  · cases sixtieth

/-- Where the first part starts with a digit, so does the text. -/
theorem exists_digit_of_parts {p : List Char} {ps : List (List Char)}
    (parts : Tag.parts s = p :: ps) (leading : Tag.isDigits p = true) :
    ∃ d r, s = d :: r ∧ d.isDigit = true := by
  obtain ⟨t, whole⟩ := isPrefix_of_parts parts
  cases p with
  | nil => cases leading
  | cons d p => exact ⟨d, p ++ t, whole.symm, (Bool.and_eq_true_iff.mp leading).1⟩

/-- Every part of a number to base sixty has digits only. -/
theorem digits_of_parts {p : List Char} {ps : List (List Char)} (parts : Tag.parts s = p :: ps)
    (leading : Tag.isDigits p = true) (others : ∀ q ∈ ps, Tag.isSixtieth q = true) :
    ∀ q ∈ Tag.parts (withoutUnderscores s), (∀ c ∈ q, c.isDigit = true) ∧ q ≠ [] := by
  rw [withoutUnderscores, parts_filter rfl, parts, List.forall_mem_map, List.forall_mem_cons]
  exact ⟨digits_of_isDigits leading, fun q member => digits_of_isSixtieth (others q member)⟩

/-- A text without its sign keeps everything else. -/
theorem unsigned_cases (s : List Char) :
    s = '-' :: Tag.unsigned s ∨ s = '+' :: Tag.unsigned s ∨ s = Tag.unsigned s := by
  unfold Tag.unsigned
  split
  · exact .inl rfl
  · exact .inr (.inl rfl)
  · exact .inr (.inr rfl)

end Digits

section Integers

/-! ### Integers -/

variable {base : ℕ}

/-- A digit to a known base is one to base sixteen. -/
theorem hexValue?_of_digit? {c : Char} (digit : (digit? base c).isSome = true) :
    (Bytes.hexValue? c).isSome = true := by
  unfold digit? at digit
  cases value : Bytes.hexValue? c with
  | none => simp [value] at digit
  | some d => rfl

/-- No mark of a base is a digit to that base. -/
theorem afterMark_eq (known : base = 2 ∨ base = 8 ∨ base = 10 ∨ base = 16)
    (digits : ∀ c ∈ s, (digit? base c).isSome = true) : afterMark base s = s := by
  unfold afterMark
  split
  · next c r =>
    have second := digits c (by simp)
    have unmarked (marks : List Char) (none : ∀ m ∈ marks, digit? base m = none) :
        marks.contains c = false := by
      rw [List.contains_eq_mem, decide_eq_false_iff_not]
      intro member
      simp [none c member] at second
    rcases known with rfl | rfl | rfl | rfl
    · exact if_neg (by simpa using unmarked ['b', 'B'] (by decide))
    · exact if_neg (by simpa using unmarked ['o', 'O'] (by decide))
    · rfl
    · exact if_neg (by simpa using unmarked ['x', 'X'] (by decide))
  · rfl

theorem exists_digit?_values (digits : ∀ c ∈ s, (digit? base c).isSome = true) :
    ∃ values, s.mapM (digit? base) = some values ∧ values.length = s.length := by
  induction s with
  | nil => exact ⟨[], rfl, rfl⟩
  | cons c s ih =>
    obtain ⟨first, others⟩ := List.forall_mem_cons.mp digits
    obtain ⟨d, value⟩ := Option.isSome_iff_exists.mp first
    obtain ⟨ds, read, count⟩ := ih others
    exact ⟨d :: ds, by rw [List.mapM_cons, value, read]; rfl, congrArg Nat.succ count⟩

/-- Digits to a base are read; only to base ten there may be too many of them. -/
theorem toBase_yields (known : base = 2 ∨ base = 8 ∨ base = 10 ∨ base = 16)
    (digits : ∀ c ∈ s, (digit? base c).isSome = true) (nonempty : s ≠ []) :
    Yields (fun _ => True) Failure.OfSpelling (toBase base s) := by
  -- The reader of numbers replaces digits of other scripts, trims blanks and cuts off a sign and
  -- the mark of the base. None of this changes plain digits.
  have hexadecimal := fun c member => hexValue?_of_digit? (digits c member)
  have each : ∀ c ∈ "0123456789abcdefABCDEF".toList,
      Digit.plain c = c ∧ Lenient.isBlank c = false := by decide
  have plain : s.map Digit.plain = s := by
    conv_rhs => rw [← List.map_id s]
    exact List.map_congr_left fun c member => (forall_hexDigit each (hexadecimal c member)).1
  have trimmed : Lenient.trim s = s :=
    trim_of_visible fun c member => (forall_hexDigit each (hexadecimal c member)).2
  have sign : Lenient.sign s = (false, s) := by
    obtain ⟨c, r, rfl⟩ := List.exists_cons_of_ne_nil nonempty
    have each : ∀ c ∈ "0123456789abcdefABCDEF".toList, ∀ r,
        Lenient.sign (c :: r) = (false, c :: r) := by
      simp [Lenient.sign]
    exact forall_hexDigit each (hexadecimal c List.mem_cons_self) r
  obtain ⟨values, read, count⟩ := exists_digit?_values digits
  have some : values.isEmpty = false := by
    rw [List.isEmpty_eq_false_iff_exists_mem, ← List.length_pos_iff_exists_mem, count]
    exact List.length_pos_of_ne_nil nonempty
  simp only [toBase, plain, trimmed, sign, afterMark_eq known digits, read, some,
    Bool.false_eq_true, if_false]
  split
  · next long => exact .error (.digits long.2)
  · exact .ok trivial

theorem toBase_ten_yields (digits : ∀ c ∈ s, c.isDigit = true) (nonempty : s ≠ []) :
    Yields (fun _ => True) Failure.OfSpelling (toBase 10 s) := by
  have each : ∀ c ∈ "0123456789".toList, (digit? 10 c).isSome = true := by decide
  exact toBase_yields (by decide) (fun c member => forall_digit each (digits c member)) nonempty

/-- Digits to a marked base; they may be missing. -/
theorem toBase_marked_yields (marked : base = 2 ∨ base = 16)
    (digits : ∀ c ∈ s, (digit? base c).isSome = true) :
    Yields (fun _ => True) Failure.OfSpelling (toBase base s) := by
  cases s with
  | nil => exact .error (.mark marked)
  | cons c s =>
    exact toBase_yields (by rcases marked with rfl | rfl <;> decide) digits (List.cons_ne_nil _ _)

/-- The sign in front of an integer does not matter. -/
theorem integer_of_unsigned {d : Char} {r : List Char} (unsigned : Tag.unsigned s = d :: r)
    (digit : d.isDigit = true) {F : Failure → Prop}
    (yields : Yields (fun _ => True) F (unsignedInteger (d :: withoutUnderscores r))) :
    Yields (fun _ => True) F (integer s) := by
  have each : ∀ c ∈ "0123456789".toList, c ≠ '_' ∧ c ≠ '-' ∧ c ≠ '+' := by decide
  have visible := forall_digit each digit
  have shape := unsigned_cases s
  rw [unsigned] at shape
  unfold integer
  rcases shape with rfl | rfl | rfl
  · rw [withoutUnderscores_cons (by decide), withoutUnderscores_cons visible.1]
    exact yields.map fun _ _ => trivial
  · rw [withoutUnderscores_cons (by decide), withoutUnderscores_cons visible.1]
    exact yields
  · rw [withoutUnderscores_cons visible.1]
    split
    · simp_all
    · simp_all
    · simp_all
    · exact yields

/-- The digits that a spelling allows are digits to its base. -/
theorem digit?_isSome {f : Char → Bool} (spelled : ∀ c ∈ s, f c = true ∨ c = '_')
    (each : ∀ c, f c = true → (digit? base c).isSome = true) :
    ∀ c ∈ withoutUnderscores s, (digit? base c).isSome = true := by
  intro c member
  obtain ⟨member, visible⟩ := List.mem_filter.mp member
  rcases spelled c member with digit | rfl
  · exact each c digit
  · cases visible

/-- Parts of digits are read to the base ten, one by one or as a whole. -/
theorem unsignedInteger_yields {d : Char} (positive : d ≠ '0')
    (digits : ∀ p ∈ Tag.parts (d :: s), (∀ c ∈ p, c.isDigit = true) ∧ p ≠ []) :
    Yields (fun _ => True) Failure.OfSpelling (unsignedInteger (d :: s)) := by
  have based : unsignedInteger (d :: s) = if (d :: s).contains ':' then do
      let ns ← (Tag.parts (d :: s)).mapM (toBase 10)
      .ok (ns.foldl (fun n d => 60 * n + d) 0)
    else toBase 10 (d :: s) := by
    unfold unsignedInteger
    split <;> simp_all
  have each : ∀ p ∈ Tag.parts (d :: s), Yields (fun _ => True) Failure.OfSpelling (toBase 10 p) :=
    fun p member => toBase_ten_yields (digits p member).1 (digits p member).2
  rw [based]
  split
  · exact (Yields.mapM each).bind fun _ _ => .ok trivial
  · next colons =>
    have whole : Tag.parts (d :: s) = [d :: s] := parts_eq (by simpa using colons)
    exact each _ (by simp [whole])

/-- Behind a zero digits are read to the base eight. -/
theorem unsignedInteger_octal (octal : ∀ c ∈ s, (digit? 8 c).isSome = true) :
    Yields (fun _ => True) Failure.OfSpelling (unsignedInteger ('0' :: s)) := by
  cases s with
  | nil => exact .ok trivial
  | cons c s =>
    have unmarked : c ≠ 'b' ∧ c ≠ 'x' := by
      have digit := octal c List.mem_cons_self
      constructor <;> rintro rfl <;> cases digit
    have based : unsignedInteger ('0' :: c :: s) = toBase 8 ('0' :: c :: s) := by
      simp [unsignedInteger, unmarked]
    rw [based]
    exact toBase_yields (by decide) (List.forall_mem_cons.mpr ⟨by decide, octal⟩)
      (List.cons_ne_nil _ _)

/-- A text that is spelled like an integer is one, unless it is too long or ends behind the mark of
its base. -/
theorem integer_yields (spelled : Tag.isInt s = true) :
    Yields (fun _ => True) Failure.OfSpelling (integer s) := by
  unfold Tag.isInt at spelled
  split at spelled
  -- Base two, behind its mark.
  · next r unsigned =>
    have binary : ∀ c ∈ withoutUnderscores r, (digit? 2 c).isSome = true := by
      have spelled : ∀ c ∈ r, (c == '0' || c == '1') = true ∨ c = '_' := by simp_all
      refine digit?_isSome spelled fun c digit => ?_
      obtain rfl | rfl : c = '0' ∨ c = '1' := by simpa using digit
      · decide
      · decide
    refine integer_of_unsigned unsigned rfl ?_
    rw [withoutUnderscores_cons (by decide)]
    exact toBase_marked_yields (.inl rfl) binary
  -- Base sixteen, behind its mark.
  · next r unsigned =>
    have hexadecimal : ∀ c ∈ withoutUnderscores r, (digit? 16 c).isSome = true := by
      have spelled : ∀ c ∈ r,
          (c.isDigit || (('a' ≤ c && c ≤ 'f') || ('A' ≤ c && c ≤ 'F'))) = true ∨ c = '_' := by
        intro c member
        have := List.all_eq_true.mp (Bool.and_eq_true_iff.mp spelled).2 c member
        simp only [Bool.or_eq_true, beq_iff_eq] at this ⊢
        tauto
      refine digit?_isSome spelled fun c digit => ?_
      simp only [Bool.or_eq_true, Bool.and_eq_true, decide_eq_true_eq] at digit
      rcases digit with decimal | lower | upper
      · exact forall_digit (P := fun c => (digit? 16 c).isSome = true) (by decide) decimal
      · exact forall_between (P := fun c => (digit? 16 c).isSome = true) (by decide) lower.1
          lower.2
      · exact forall_between (P := fun c => (digit? 16 c).isSome = true) (by decide) upper.1
          upper.2
    refine integer_of_unsigned unsigned rfl ?_
    rw [withoutUnderscores_cons (by decide)]
    exact toBase_marked_yields (.inr rfl) hexadecimal
  -- Base eight, behind a zero.
  · next r _ _ unsigned =>
    have octal : ∀ c ∈ withoutUnderscores r, (digit? 8 c).isSome = true := by
      have spelled : ∀ c ∈ r, ('0' ≤ c && c ≤ '7') = true ∨ c = '_' := by simpa using spelled
      refine digit?_isSome spelled fun c digit => ?_
      simp only [Bool.and_eq_true, decide_eq_true_eq] at digit
      exact forall_between (P := fun c => (digit? 8 c).isSome = true) (by decide) digit.1 digit.2
    exact integer_of_unsigned unsigned rfl (unsignedInteger_octal octal)
  -- Base ten, or parts to base sixty.
  · next r _ _ octal =>
    obtain ⟨first, rest, parts⟩ := exists_parts (Tag.unsigned s)
    rw [parts] at spelled
    obtain ⟨leading, others⟩ := Bool.and_eq_true_iff.mp spelled
    obtain ⟨d, r, shape, digit⟩ := exists_digit_of_parts parts leading
    have visible : d ≠ '_' := by
      rintro rfl
      cases digit
    -- A zero in front would have been read as the mark of a base.
    have positive : d ≠ '0' := by
      rintro rfl
      exact octal r shape
    have digits := digits_of_parts parts leading (List.all_eq_true.mp others)
    rw [shape, withoutUnderscores_cons visible] at digits
    exact integer_of_unsigned shape digit (unsignedInteger_yields positive digits)

end Integers

section Floats

/-! ### Numbers with a point -/

theorem map_toLower_of_digits (digits : ∀ c ∈ s, c.isDigit = true) : s.map Char.toLower = s :=
  map_of_numberChars (fun c member => mem_numberChars_of_isDigit (digits c member)) (by decide)

/-- What ends a spelled number is an exponent. -/
theorem exists_exponent (spelled : Tag.isExponent s = true) :
    ∃ e, Exponent e ((withoutUnderscores s).map Char.toLower) := by
  unfold Tag.isExponent at spelled
  split at spelled
  · exact ⟨0, .none⟩
  · cases spelled
  · next letter sign ds =>
    simp only [Bool.and_eq_true, Bool.not_eq_true', List.all_eq_true] at spelled
    obtain ⟨⟨⟨letters, signs⟩, nonempty⟩, digits⟩ := spelled
    have nonempty : ds ≠ [] := by simpa using nonempty
    have kept : withoutUnderscores ds = ds :=
      (isNumeric_of_digits digits nonempty).withoutUnderscores_eq
    obtain rfl | rfl : letter = 'e' ∨ letter = 'E' := by simpa using letters
    all_goals
      obtain rfl | rfl : sign = '-' ∨ sign = '+' := by simpa using signs
    all_goals
      rw [withoutUnderscores_cons (by decide), withoutUnderscores_cons (by decide), kept,
        List.map_cons, List.map_cons, map_toLower_of_digits digits]
    · exact ⟨_, .negative digits nonempty⟩
    · exact ⟨_, .positive digits nonempty⟩
    · exact ⟨_, .negative digits nonempty⟩
    · exact ⟨_, .positive digits nonempty⟩

/-- A decimal without sign is a number. -/
theorem exists_plainFloat (chars : ∀ c ∈ s, c ∈ numberChars)
    (unsigned : ∀ c ∈ s.head?, c ≠ '-' ∧ c ≠ '+')
    (decimal : (Lenient.decimal? false s).isSome = true) : ∃ x, plainFloat s = .ok x := by
  obtain ⟨x, read⟩ := Option.isSome_iff_exists.mp decimal
  have plain : s.map Digit.plain = s := map_of_numberChars chars (by decide)
  have lower : s.map Char.toLower = s := map_of_numberChars chars (by decide)
  have trimmed : Lenient.trim s = s :=
    trim_of_visible fun c member => not_isBlank_of_numberChars c (chars c member)
  have sign : Lenient.sign s = (false, s) := by
    cases s with
    | nil => rfl
    | cons c s =>
      obtain ⟨minus, plus⟩ := unsigned c rfl
      unfold Lenient.sign
      split <;> simp_all
  have word (w : String) (other : ¬∀ c ∈ w.toList, c ∈ numberChars) :
      Lenient.isWord w s = false := by
    rw [Lenient.isWord, lower, beq_eq_false_iff_ne]
    rintro rfl
    exact other chars
  refine ⟨x, ?_⟩
  simp only [plainFloat, plain, Lenient.float?, trimmed, Lenient.plainFloat?, sign,
    word "inf" (by decide), word "infinity" (by decide), word "nan" (by decide), Bool.or_self,
    Bool.false_eq_true, if_false, read]

/-- Digits with a point are a number; they may be missing on one side of it. -/
theorem exists_plainFloat_point {whole frac tail : List Char} {e : ℤ}
    (before : ∀ c ∈ whole, c.isDigit = true) (behind : ∀ c ∈ frac, c.isDigit = true)
    (some : whole ≠ [] ∨ frac ≠ []) (ends : Exponent e tail) :
    ∃ x, plainFloat (whole ++ '.' :: (frac ++ tail)) = .ok x := by
  have chars : ∀ c ∈ whole ++ '.' :: (frac ++ tail), c ∈ numberChars := by
    simp only [List.forall_mem_append, List.forall_mem_cons]
    exact ⟨fun c member => mem_numberChars_of_isDigit (before c member), by decide,
      fun c member => mem_numberChars_of_isDigit (behind c member), ends.mem_numberChars⟩
  have unsigned : ∀ c ∈ (whole ++ '.' :: (frac ++ tail)).head?, c ≠ '-' ∧ c ≠ '+' := by
    cases whole with
    | nil => simp
    | cons d whole =>
      rintro c ⟨⟩
      exact forall_digit (P := fun c => c ≠ '-' ∧ c ≠ '+') (by decide)
        (before d List.mem_cons_self)
  obtain ⟨first, point⟩ := Pointed.span_digits (t := '.' :: (frac ++ tail)) before (by simp)
  obtain ⟨second, rest⟩ := Pointed.span_digits (t := tail) behind
    (fun c head => by rw [ends.eq_of_head? c head]; rfl)
  have nonempty : (whole.isEmpty && frac.isEmpty) = false := by
    rcases some with some | some <;> simp [some]
  refine exists_plainFloat chars unsigned ?_
  simp [Lenient.decimal?, first, point, second, rest, nonempty, ends.exponent?_eq]

theorem exists_plainFloat_digits (digits : ∀ c ∈ s, c.isDigit = true) (nonempty : s ≠ []) :
    ∃ x, plainFloat s = .ok x := by
  obtain ⟨first, rest⟩ := Pointed.span_digits (t := []) digits (by simp)
  have unsigned : ∀ c ∈ s.head?, c ≠ '-' ∧ c ≠ '+' := fun c head =>
    forall_digit (P := fun c => c ≠ '-' ∧ c ≠ '+') (by decide)
      (digits c (List.mem_of_mem_head? head))
  rw [List.append_nil] at first rest
  have chars := fun c member => mem_numberChars_of_isDigit (digits c member)
  refine exists_plainFloat chars unsigned ?_
  simp [Lenient.decimal?, first, rest, nonempty, Lenient.exponent?]

/-- The sign in front of a number does not matter. -/
theorem float_of_unsigned {d : Char} {r : List Char} (unsigned : Tag.unsigned s = d :: r)
    (start : d.isDigit = true ∨ d = '.') {F : Failure → Prop}
    (yields : Yields (fun _ => True) F
      (unsignedFloat ((withoutUnderscores (d :: r)).map Char.toLower))) :
    Yields (fun _ => True) F (float s) := by
  have visible : d ≠ '_' ∧ d.toLower = d ∧ d ≠ '-' ∧ d ≠ '+' := by
    rcases start with digit | rfl
    · have each : ∀ d ∈ "0123456789".toList, d ≠ '_' ∧ d.toLower = d ∧ d ≠ '-' ∧ d ≠ '+' := by
        decide
      exact forall_digit each digit
    · decide
  obtain ⟨visible, lower, minus, plus⟩ := visible
  rw [withoutUnderscores_cons visible, List.map_cons, lower] at yields
  have shape := unsigned_cases s
  rw [unsigned] at shape
  unfold float
  rcases shape with rfl | rfl | rfl
  · rw [withoutUnderscores_cons (by decide), withoutUnderscores_cons visible, List.map_cons,
      List.map_cons, lower]
    exact yields.map fun _ _ => trivial
  · rw [withoutUnderscores_cons (by decide), withoutUnderscores_cons visible, List.map_cons,
      List.map_cons, lower]
    exact yields
  · rw [withoutUnderscores_cons visible, List.map_cons, lower]
    split
    · simp_all
    · simp_all
    · simp_all
    · exact yields

/-- A text in the characters of decimals and colons is no word. -/
theorem unsignedFloat_eq (chars : ∀ c ∈ s, c ∈ ':' :: numberChars) :
    unsignedFloat s = if s.contains ':' then do sixtieths (← (Tag.parts s).mapM plainFloat)
      else plainFloat s := by
  have word (w : String) (other : ¬∀ c ∈ w.toList, c ∈ ':' :: numberChars) :
      String.ofList s ≠ w := by
    rintro rfl
    rw [String.toList_ofList] at other
    exact other chars
  rw [unsignedFloat, if_neg (word ".inf" (by decide)), if_neg (word ".nan" (by decide))]

/-- A number with a point and perhaps an exponent. -/
theorem unsignedFloat_point {whole frac tail : List Char}
    (before : ∀ c ∈ whole, Tag.isSpaced c = true) (behind : ∀ c ∈ frac, Tag.isSpaced c = true)
    (some : withoutUnderscores whole ≠ [] ∨ withoutUnderscores frac ≠ [])
    (ends : Tag.isExponent tail = true) {F : Failure → Prop} :
    Yields (fun _ => True) F (unsignedFloat
      ((withoutUnderscores (whole ++ '.' :: (frac ++ tail))).map Char.toLower)) := by
  have first := isDigit_withoutUnderscores before
  have second := isDigit_withoutUnderscores behind
  obtain ⟨e, exponent⟩ := exists_exponent ends
  rw [withoutUnderscores_append, withoutUnderscores_cons (by decide), withoutUnderscores_append,
    List.map_append, List.map_cons, List.map_append, map_toLower_of_digits first,
    map_toLower_of_digits second]
  generalize withoutUnderscores whole = whole at first some
  generalize withoutUnderscores frac = frac at second some
  generalize (withoutUnderscores tail).map Char.toLower = tail at exponent
  obtain ⟨x, read⟩ := exists_plainFloat_point first second some exponent
  have chars : ∀ c ∈ whole ++ '.' :: (frac ++ tail), c ∈ numberChars := by
    simp only [List.forall_mem_append, List.forall_mem_cons]
    exact ⟨fun c member => mem_numberChars_of_isDigit (first c member), by decide,
      fun c member => mem_numberChars_of_isDigit (second c member), exponent.mem_numberChars⟩
  have colons : (whole ++ '.' :: (frac ++ tail)).contains ':' = false := by
    rw [List.contains_eq_mem, decide_eq_false_iff_not]
    exact fun member => absurd (chars ':' member) (by decide)
  rw [show Char.toLower '.' = '.' from rfl,
    unsignedFloat_eq fun c member => List.mem_cons_of_mem _ (chars c member), colons, read]
  exact .ok trivial

/-- The sum of parts to base sixty fails only where a part counts too much. -/
theorem addSixtieths_yields (sum : Binary64) (base : ℤ) (xs : List Binary64) :
    Yields (fun _ => True) Failure.OfSpelling (addSixtieths sum base xs) := by
  induction xs generalizing sum base with
  | nil => exact .ok trivial
  | cons x xs ih =>
    unfold addSixtieths
    split
    · exact ih _ _
    · exact .error .numberSize

/-- Parts of digits are read one by one; the digits behind the point belong to the last of them. -/
theorem unsignedFloat_parts {whole frac : List Char}
    (digits : ∀ p ∈ Tag.parts whole, (∀ c ∈ p, c.isDigit = true) ∧ p ≠ []) (colon : ':' ∈ whole)
    (behind : ∀ c ∈ frac, c.isDigit = true) :
    Yields (fun _ => True) Failure.OfSpelling
      (unsignedFloat ((whole ++ '.' :: frac).map Char.toLower)) := by
  have before : ∀ c ∈ whole, c ∈ ':' :: numberChars := by
    intro c member
    rcases exists_mem_parts member with rfl | ⟨p, part, holds⟩
    · exact List.mem_cons_self
    · exact List.mem_cons_of_mem _ (mem_numberChars_of_isDigit ((digits p part).1 c holds))
  have chars : ∀ c ∈ whole ++ '.' :: frac, c ∈ ':' :: numberChars := by
    simp only [List.forall_mem_append, List.forall_mem_cons]
    exact ⟨before, by decide, fun c member =>
      List.mem_cons_of_mem _ (mem_numberChars_of_isDigit (behind c member))⟩
  have lower : (whole ++ '.' :: frac).map Char.toLower = whole ++ '.' :: frac := by
    conv_rhs => rw [← List.map_id (whole ++ '.' :: frac)]
    have each : ∀ c ∈ ':' :: numberChars, c.toLower = c := by decide
    exact List.map_congr_left fun c member => each c (chars c member)
  -- There is no colon behind the point, so only the last part has a fraction.
  have colons : ':' ∉ '.' :: frac := fun member => by
    rcases List.mem_cons.mp member with point | member
    · cases point
    · cases behind _ member
  obtain ⟨ps, p, parts, all⟩ := exists_parts_append colons whole
  rw [parts, List.forall_mem_append, List.forall_mem_singleton] at digits
  have each : ∀ q ∈ ps ++ [p ++ '.' :: frac], Yields (fun _ => True) Failure.OfSpelling
      (plainFloat q) := by
    simp only [List.forall_mem_append, List.forall_mem_singleton]
    constructor
    · intro q member
      obtain ⟨x, read⟩ := exists_plainFloat_digits (digits.1 q member).1 (digits.1 q member).2
      exact read ▸ .ok trivial
    · obtain ⟨x, read⟩ := exists_plainFloat_point digits.2.1 behind (.inl digits.2.2) .none
      rw [List.append_nil] at read
      exact read ▸ .ok trivial
  rw [lower, unsignedFloat_eq chars, if_pos (by simp [colon]), all]
  exact (Yields.mapM each).bind fun xs _ => addSixtieths_yields _ _ _

/-- A number to base sixty with a point. -/
theorem unsignedFloat_sixtieths (spelled : Tag.isSixtiethFraction s = true) :
    Yields (fun _ => True) Failure.OfSpelling
      (unsignedFloat ((withoutUnderscores s).map Char.toLower)) := by
  unfold Tag.isSixtiethFraction at spelled
  dsimp only at spelled
  split at spelled
  · next r first second rest point parts =>
    simp only [Bool.and_eq_true, List.all_eq_true] at spelled
    obtain ⟨⟨spaced, leading⟩, others⟩ := spelled
    have shape : s = s.takeWhile (· != '.') ++ '.' :: r := by
      rw [← point, List.takeWhile_append_dropWhile]
    generalize s.takeWhile (· != '.') = whole at shape parts
    subst shape
    have behind := isDigit_withoutUnderscores spaced
    have digits := digits_of_parts parts leading others
    have colon : ':' ∈ withoutUnderscores whole := by
      by_contra colons
      have several := parts_eq colons
      simp [withoutUnderscores, parts_filter, parts] at several
    rw [withoutUnderscores_append, withoutUnderscores_cons (by decide)]
    exact unsignedFloat_parts digits colon behind
  · cases spelled

theorem exists_digit_of_sixtieths (spelled : Tag.isSixtiethFraction s = true) :
    ∃ d r, s = d :: r ∧ d.isDigit = true := by
  unfold Tag.isSixtiethFraction at spelled
  dsimp only at spelled
  split at spelled
  · next r first second rest point parts =>
    simp only [Bool.and_eq_true] at spelled
    obtain ⟨⟨-, leading⟩, -⟩ := spelled
    obtain ⟨d, r, shape, digit⟩ := exists_digit_of_parts parts leading
    obtain ⟨t, whole⟩ := List.takeWhile_prefix (l := s) (· != '.')
    rw [shape] at whole
    exact ⟨d, r ++ t, whole.symm, digit⟩
  · cases spelled

/-- The parts of a spelled fraction. -/
theorem exists_fraction {needed : Bool} (spelled : Tag.isFraction needed s = true) :
    ∃ frac tail, s = '.' :: (frac ++ tail) ∧ (∀ c ∈ frac, Tag.isSpaced c = true) ∧
      Tag.isExponent tail = true ∧ (needed = true → withoutUnderscores frac ≠ []) := by
  unfold Tag.isFraction at spelled
  split at spelled
  · next r =>
    obtain ⟨digit, exponent⟩ := Bool.and_eq_true_iff.mp spelled
    refine ⟨r.takeWhile Tag.isSpaced, r.dropWhile Tag.isSpaced,
      by rw [List.takeWhile_append_dropWhile], fun c => List.mem_takeWhile_imp, exponent, ?_⟩
    rintro rfl
    cases r with
    | nil => cases digit
    | cons d r =>
      have digit : d.isDigit = true := by simpa using digit
      have visible : d ≠ '_' := by
        rintro rfl
        cases digit
      rw [List.takeWhile_cons_of_pos (by simp [Tag.isSpaced, digit]),
        withoutUnderscores_cons visible]
      exact List.cons_ne_nil _ _
  · cases spelled

/-- A text that is spelled like a number with a point is one, unless it has too many parts. -/
theorem float_yields (spelled : Tag.isFloat s = true) :
    Yields (fun _ => True) Failure.OfSpelling (float s) := by
  simp only [Tag.isFloat, Bool.or_eq_true, Bool.and_eq_true] at spelled
  -- The spellings: digits and a fraction, a fraction alone, base sixty, and the two kinds of words.
  obtain ((((⟨digit, fraction⟩ | fraction) | sixtieths) | infinite) | undefined) := spelled
  · obtain ⟨frac, tail, point, behind, exponent, -⟩ := exists_fraction fraction
    have shape := List.takeWhile_append_dropWhile (p := Tag.isSpaced) (l := Tag.unsigned s)
    rw [point] at shape
    cases unsigned : Tag.unsigned s with
    | nil => simp [unsigned] at digit
    | cons d r =>
      have digit : d.isDigit = true := by simpa [unsigned] using digit
      rw [unsigned, List.takeWhile_cons_of_pos (by simp [Tag.isSpaced, digit])] at shape
      have visible : d ≠ '_' := by
        rintro rfl
        cases digit
      refine float_of_unsigned unsigned (.inl digit) ?_
      rw [← shape]
      refine unsignedFloat_point ?_ behind (.inl ?_) exponent
      · exact List.forall_mem_cons.mpr ⟨by simp [Tag.isSpaced, digit],
          fun c => List.mem_takeWhile_imp⟩
      · rw [withoutUnderscores_cons visible]
        exact List.cons_ne_nil _ _
  · obtain ⟨frac, tail, rfl, behind, exponent, digits⟩ := exists_fraction fraction
    have yields := unsignedFloat_point (F := Failure.OfSpelling) (List.forall_mem_nil _) behind
      (.inr (digits rfl)) exponent
    exact float_of_unsigned rfl (.inr rfl) yields
  · obtain ⟨d, r, unsigned, digit⟩ := exists_digit_of_sixtieths sixtieths
    exact float_of_unsigned unsigned (.inl digit) (unsigned ▸ unsignedFloat_sixtieths sixtieths)
  · have words : Tag.unsigned s ∈ [".inf".toList, ".Inf".toList, ".INF".toList] := by
      simpa [← String.toList_inj] using infinite
    have value : ∀ w ∈ [".inf".toList, ".Inf".toList, ".INF".toList], w.head? = some '.' ∧
        unsignedFloat ((withoutUnderscores w).map Char.toLower) = .ok (.infinity false) := by decide
    obtain ⟨point, value⟩ := value _ words
    obtain ⟨r, unsigned⟩ := List.head?_eq_some_iff.mp point
    rw [unsigned] at value
    exact float_of_unsigned unsigned (.inr rfl) (value ▸ .ok trivial)
  · have words : s ∈ [".nan".toList, ".NaN".toList, ".NAN".toList] := by
      simpa [← String.toList_inj] using undefined
    have value : ∀ w ∈ [".nan".toList, ".NaN".toList, ".NAN".toList],
        float w = .ok (.nan false) := by decide
    exact value s words ▸ .ok trivial

end Floats

section Plain

/-! ### Plain scalars -/

theorem checkDay_yields (year month day : ℕ) :
    Yields (fun _ => True) Failure.OfSpelling (checkDay year month day) := by
  unfold checkDay
  split_ifs
  · exact .error (.calendar _)
  · exact .error (.calendar _)
  · exact .error (.calendar _)
  · exact .ok trivial

theorem checkTime_yields (hour minute second : ℕ) :
    Yields (fun _ => True) Failure.OfSpelling (checkTime hour minute second) := by
  unfold checkTime
  split_ifs
  · exact .error (.calendar _)
  · exact .error (.calendar _)
  · exact .error (.calendar _)
  · exact .ok trivial

theorem zoneText_yields (west : Bool) (hours minutes : ℕ) :
    Yields (fun _ => True) Failure.OfSpelling (zoneText west hours minutes) := by
  simp only [zoneText]
  split
  · exact .error (.calendar _)
  · split
    · exact .ok trivial
    · exact .ok trivial

/-- A text that is spelled like a date is one, unless the calendar has no such day. -/
theorem date_yields (spelled : Tag.isDate s = true) :
    Yields (fun _ => True) Failure.OfSpelling (date s) := by
  obtain ⟨d, read, -⟩ := (Option.any_eq_true ..).mp spelled
  have shown : Yields (fun _ => True) Failure.OfSpelling (dateText d) := by
    unfold dateText
    split
    · exact (checkDay_yields _ _ _).bind fun _ _ => .ok trivial
    · dsimp only
      split
      · refine (checkDay_yields _ _ _).bind fun _ _ => (checkTime_yields _ _ _).bind fun _ _ => ?_
        exact .ok trivial
      · refine Yields.bind (P := fun _ => True) ((zoneText_yields _ _ _).map fun _ _ => trivial) ?_
        intro zone _
        refine (checkDay_yields _ _ _).bind fun _ _ => (checkTime_yields _ _ _).bind fun _ _ => ?_
        exact .ok trivial
  rw [date, read]
  exact shown.map fun _ _ => trivial

/-- A plain scalar has a value, unless its spelling is wider than the values or it is a mark that
stands for no value at all. -/
theorem datum_ofPlain {text : String} (line : text.toList.getLast? ≠ some '\n') :
    Yields (fun _ => True) (fun f => f = .malformed ∨ f.OfSpelling)
      ((Tag.ofPlain text).datum text) := by
  -- The kind is taken from the text without a line feed at its end, the value from all of it.
  have spelled : Tag.spelled text.toList = text.toList := if_neg (by simp [line])
  have lift {α : Type} {x : Except Failure α}
      (yields : Yields (fun _ => True) Failure.OfSpelling x) (f : α → Datum) :
      Yields (fun _ => True) (fun f => f = .malformed ∨ f.OfSpelling) (x.map f) :=
    (yields.map fun _ _ => trivial).weaken fun _ => .inr
  simp only [Tag.ofPlain, spelled, String.ofList_toList]
  split_ifs with truth null merge value mark point whole day
  · have words : ∀ w ∈ Tag.truthWords, (Tag.bool.datum w).isOk = true := by decide
    obtain ⟨d, value⟩ := Outcome.exists_of_isOk (words text (by simpa using truth))
    exact value ▸ .ok trivial
  · exact .ok trivial
  · exact .error (.inl rfl)
  · exact .error (.inl rfl)
  · exact .error (.inl rfl)
  · exact lift (float_yields point) _
  · exact lift (integer_yields whole) _
  · exact (date_yields day).weaken fun _ => .inr
  · exact .ok trivial

end Plain

end Yaml

end Quorum
