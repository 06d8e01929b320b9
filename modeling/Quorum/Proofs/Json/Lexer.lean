import Mathlib.Algebra.Order.Group.Nat
import Mathlib.Data.List.Chain
import Mathlib.Data.List.TakeWhile
import Quorum.Json.Lexer

/-!
# JSON tokens are read back

What is written for a token is read as the token. A number goes on as long as it can, so it needs
another kind of character behind it; in a document a bracket, a separator or a space stands behind
every scalar.

## Main definitions

* `Json.Token.Legible` — the tokens that are read as they are written
* `Json.Spells` — text that writes tokens, with spaces between them
* `Json.Separated` — tokens without two scalars next to each other

## Main results

* `Json.token?_text` — a token is read as it is written
* `Json.Spells.lex?` — the tokens of a text are read
* `Json.separated_tokens` — between the scalars of a document stands something else
-/

namespace Quorum

namespace Json

/-! ### Text -/

theorem hexValue?_hexDigit {n : ℕ} (short : n < 16) :
    Bytes.hexValue? (Bytes.hexDigit n) = some n := by
  have all : ∀ n < 16, Bytes.hexValue? (Bytes.hexDigit n) = some n := by decide
  exact all n short

/-- Four hexadecimal digits write a code point. -/
theorem hex4?_hexDigits {n : ℕ} (short : n < 0x10000) : ∃ a b c d,
    Quoted.hexDigits 4 n = [a, b, c, d] ∧ hex4? a b c d = some n := by
  refine ⟨_, _, _, _, rfl, ?_⟩
  have value (m : ℕ) : Bytes.hexValue? (Bytes.hexDigit (m % 16)) = some (m % 16) :=
    hexValue?_hexDigit (Nat.mod_lt _ (by decide))
  simp only [hex4?, value, bind, Option.bind_some]
  congr 1
  omega

theorem char?_plain {c : Char} (plain : c ≠ '\\') (visible : ¬c.toNat < 32) (rest : List Char) :
    char? (c :: rest) = some (c, rest) := by
  unfold char?
  split
  case h_4 d r _ _ _ same =>
    cases same
    rw [if_neg visible]
  case h_5 same => cases same
  all_goals
    next same =>
      cases same
      exact absurd rfl plain

/-- What is written for a character is read as the character. -/
theorem char?_escape (c : Char) (rest : List Char) : char? (escape c ++ rest) = some (c, rest) := by
  have named {d : Char} (same : c.toNat = d.toNat) : c = d := by
    rw [← Char.ofNat_toNat c, same, Char.ofNat_toNat]
  unfold escape
  split
  · next same => rw [same]; rfl
  split
  · next same => rw [same]; rfl
  split
  · next same => rw [named (d := '\x08') same]; rfl
  split
  · next same => rw [named (d := '\t') same]; rfl
  split
  · next same => rw [named (d := '\n') same]; rfl
  split
  · next same => rw [named (d := '\x0c') same]; rfl
  split
  · next same => rw [named (d := '\r') same]; rfl
  split
  · next control =>
    obtain ⟨w, x, y, z, digits, value⟩ := hex4?_hexDigits (n := c.toNat) (by omega)
    rw [digits]
    simp only [List.cons_append, List.nil_append, char?, value]
    rw [if_pos (by omega), Char.ofNat_toNat]
  · next _ plain _ _ _ _ _ visible => exact char?_plain plain visible rest

/-- What is written for a character does not look like the closing quote. -/
theorem head?_escape (c : Char) (rest : List Char) : (escape c ++ rest).head? ≠ some '"' := by
  unfold escape
  repeat' split
  all_goals simp_all

theorem string?_quote (s rest : List Char) :
    string? (s.flatMap escape ++ '"' :: rest) = some (s, rest) := by
  induction s with
  | nil =>
    rw [string?]
    rfl
  | cons c s ih =>
    rw [List.flatMap_cons, List.append_assoc, string?, if_neg (head?_escape c _)]
    split
    · next none =>
      rw [char?_escape] at none
      cases none
    · next found =>
      rw [char?_escape] at found
      cases found
      rw [ih]
      rfl

/-! ### Integers -/

theorem digitsValue_toDigits (n : ℕ) : digitsValue (Nat.toDigits 10 n) = n :=
  Nat.ofDigitChars_toDigits (by decide) (by decide)

theorem isDigit_toDigits {n : ℕ} {c : Char} (member : c ∈ Nat.toDigits 10 n) : c.isDigit = true :=
  Nat.isDigit_of_mem_toDigits (by decide) (by decide) member

/-- No zero stands in front of other digits. -/
theorem head?_toDigits (n : ℕ) :
    (Nat.toDigits 10 n).head? ≠ some '0' ∨ (Nat.toDigits 10 n).length = 1 := by
  induction n using Nat.strongRecOn with
  | ind n ih =>
    rw [Nat.toDigits_eq_if (by decide)]
    split
    · exact .inr rfl
    · next long =>
      left
      rw [List.head?_append_of_ne_nil _ Nat.toDigits_ne_nil]
      rcases ih (n / 10) (by omega) with head | single
      · exact head
      · have short : n / 10 < 10 := by
          simpa using (Nat.length_toDigits_le_iff (by decide) one_pos).mp single.le
        rw [Nat.toDigits_of_lt_base short]
        have all : ∀ d < 10, d ≠ 0 → [Nat.digitChar d].head? ≠ some '0' := by decide
        exact all _ short (by omega)

theorem unsigned?_toDigits {negative : Bool} {n : ℕ}
    (short : (Nat.toDigits 10 n).length + negative.toNat ≤ 4300) :
    unsigned? negative (Nat.toDigits 10 n) =
      some (.int (if negative then -(n : ℤ) else n)) := by
  have whole : (Nat.toDigits 10 n).takeWhile Char.isDigit = Nat.toDigits 10 n :=
    List.takeWhile_eq_self_iff.mpr fun _ => isDigit_toDigits
  have rest : (Nat.toDigits 10 n).dropWhile Char.isDigit = [] :=
    List.dropWhile_eq_nil_iff.mpr fun _ => isDigit_toDigits
  have nonempty : (Nat.toDigits 10 n).isEmpty = false := by
    simp [Nat.toDigits_ne_nil]
  have plain :
      ((Nat.toDigits 10 n).head? == some '0' && 1 < (Nat.toDigits 10 n).length) = false := by
    rcases head?_toDigits n with head | single
    · simp [head]
    · simp [single]
  simp only [unsigned?, whole, rest, nonempty, plain, Bool.or_false, Bool.false_eq_true, if_false,
    digitsValue_toDigits]
  rw [if_neg (by omega)]
  rfl

/-- The decimal text of an integer is read as the integer, unless it is too long. -/
theorem number?_intText {n : ℤ} (short : (intText n).length ≤ 4300) :
    number? (intText n) = some (.int n) := by
  unfold intText at short ⊢
  split
  · next negative =>
    rw [if_pos negative, List.length_cons] at short
    rw [number?, unsigned?_toDigits short, if_pos rfl, Int.ofNat_natAbs_of_nonpos negative.le,
      Int.neg_neg]
  · next nonneg =>
    rw [if_neg nonneg] at short
    have unsigned : number? (Nat.toDigits 10 n.natAbs) =
        unsigned? false (Nat.toDigits 10 n.natAbs) := by
      unfold number?
      split
      · next r digits =>
        have sign : '-' ∈ Nat.toDigits 10 n.natAbs := digits ▸ List.mem_cons_self
        cases isDigit_toDigits sign
      · rfl
    rw [unsigned, unsigned?_toDigits (by simpa using short), if_neg Bool.false_ne_true,
      Int.natAbs_of_nonneg (not_lt.mp nonneg)]

/-! ### Tokens -/

namespace Token

/-- Numbers, words and text; brackets and separators stand between them. -/
def isScalar : Token → Bool
  | null | bool _ | int _ | float _ | str _ => true
  | _ => false

/-- Tokens that are read as they are written: numbers that are no integers are left out, and an
integer may not be too long. -/
def Legible : Token → Prop
  | int n => (intText n).length ≤ 4300
  | float _ => False
  | _ => True

end Token

/-- No number goes on with this text. -/
def Ends (rest : List Char) : Prop := ∀ c ∈ rest.head?, isNumberChar c = false

/-- A digit or a sign in front of one starts a number, which takes all characters that it can. -/
theorem token?_number {c : Char} {run rest : List Char}
    (first : c.isDigit = true ∨ c = '-' ∧ ∃ d r, run = d :: r ∧ d.isDigit = true)
    (number : ∀ d ∈ run, isNumberChar d = true) (ends : Ends rest) :
    token? (c :: run ++ rest) = (number? (c :: run)).map fun t => (t, rest) := by
  have taken : (run ++ rest).takeWhile isNumberChar = run := by
    rw [List.takeWhile_append_of_pos number]
    cases rest with
    | nil => simp
    | cons d rest => simp [ends d rfl]
  have left : (run ++ rest).dropWhile isNumberChar = rest := by
    rw [List.dropWhile_append_of_pos number]
    cases rest with
    | nil => simp
    | cons d rest => simp [ends d rfl]
  have numeric : (c.isDigit || c == '-') = true := by
    rcases first with digit | ⟨rfl, -⟩
    · simp [digit]
    · rfl
  have noInfinity : c = '-' → (run ++ rest).head? ≠ some 'I' := by
    rintro rfl
    rcases first with digit | ⟨-, d, r, rfl, digit⟩
    · cases digit
    · rintro isI
      cases Option.some.inj isI
      cases digit
  rw [List.cons_append]
  unfold token?
  split
  case h_14 d r _ _ _ _ _ _ _ _ _ _ _ _ _ same =>
    cases same
    rw [if_pos numeric, taken, left]
  case h_15 same => cases same
  case h_13 same =>
    obtain ⟨rfl, rest_eq⟩ := List.cons.inj same
    exact absurd (congrArg List.head? rest_eq) (noInfinity rfl)
  all_goals
    next same =>
      obtain ⟨rfl, -⟩ := List.cons.inj same
      cases numeric

theorem exists_toDigits (n : ℕ) :
    ∃ d r, Nat.toDigits 10 n = d :: r ∧ d.isDigit = true := by
  obtain ⟨d, r, split⟩ := List.exists_cons_of_ne_nil (Nat.toDigits_ne_nil (n := n) (b := 10))
  exact ⟨d, r, split, isDigit_toDigits (n := n) (split ▸ List.mem_cons_self)⟩

theorem isNumberChar_of_isDigit {c : Char} (digit : c.isDigit = true) : isNumberChar c = true := by
  rw [isNumberChar, digit, Bool.true_or, Bool.true_or, Bool.true_or, Bool.true_or, Bool.true_or]

theorem token?_intText {n : ℤ} (short : (intText n).length ≤ 4300) {rest : List Char}
    (ends : Ends rest) : token? (intText n ++ rest) = some (.int n, rest) := by
  have value := number?_intText short
  have digits (d : Char) (member : d ∈ Nat.toDigits 10 n.natAbs) : isNumberChar d = true :=
    isNumberChar_of_isDigit (isDigit_toDigits member)
  obtain ⟨d, r, split, digit⟩ := exists_toDigits n.natAbs
  unfold intText at value ⊢
  by_cases negative : n < 0
  · rw [if_pos negative] at value ⊢
    rw [token?_number (.inr ⟨rfl, d, r, split, digit⟩) digits ends, value]
    rfl
  · rw [if_neg negative] at value ⊢
    rw [split] at value digits ⊢
    rw [token?_number (.inl digit) (fun c member => digits c (.tail d member)) ends, value]
    rfl

/-- A token is read as it is written. -/
theorem token?_text {t : Token} (legible : t.Legible) {rest : List Char}
    (ends : t.isScalar = true → Ends rest) : token? (t.text ++ rest) = some (t, rest) := by
  cases t with
  | int n => exact token?_intText legible (ends rfl)
  | float x => exact legible.elim
  | str s =>
    have quoted : token? ('"' :: (s.flatMap escape ++ ('"' :: rest))) =
        (string? (s.flatMap escape ++ '"' :: rest)).map fun read => (.str read.1, read.2) := rfl
    simp only [Token.text, quote, List.cons_append, List.append_assoc, List.nil_append, quoted,
      string?_quote]
    rfl
  | bool b => cases b <;> rfl
  | _ => rfl

/-- No token starts with a space. -/
theorem exists_text {t : Token} (legible : t.Legible) :
    ∃ c r, t.text = c :: r ∧ isSpace c = false := by
  cases t with
  | int n =>
    obtain ⟨d, r, split, digit⟩ := exists_toDigits n.natAbs
    simp only [Token.text, intText]
    split
    · exact ⟨_, _, rfl, rfl⟩
    · refine ⟨d, r, split, ?_⟩
      rw [← Bool.not_eq_true]
      intro space
      simp only [isSpace, Bool.or_eq_true, beq_iff_eq] at space
      obtain ((rfl | rfl) | rfl) | rfl := space <;> cases digit
  | float x => exact legible.elim
  | bool b => cases b <;> exact ⟨_, _, rfl, rfl⟩
  | _ => exact ⟨_, _, rfl, rfl⟩

/-- A token behind spaces is read, and then what follows it. -/
theorem lex?_text {t : Token} (legible : t.Legible) {rest : List Char}
    (ends : t.isScalar = true → Ends rest) {spaces : List Char}
    (blank : ∀ c ∈ spaces, isSpace c = true) :
    lex? (spaces ++ t.text ++ rest) = (lex? rest).map (t :: ·) := by
  have reads := token?_text legible ends
  obtain ⟨c, r, split, visible⟩ := exists_text legible
  have skipped : (spaces ++ t.text ++ rest).dropWhile isSpace = t.text ++ rest := by
    rw [List.append_assoc, List.dropWhile_append_of_pos blank, split, List.cons_append,
      List.dropWhile_cons_of_neg (by simp [visible])]
  have nonempty : (t.text ++ rest).isEmpty = false := by
    rw [split]
    rfl
  rw [lex?]
  split
  · next empty =>
    rw [skipped, nonempty] at empty
    cases empty
  · split
    · next none =>
      rw [skipped, reads] at none
      cases none
    · next found =>
      rw [skipped, reads] at found
      cases found
      rfl

/-- Text that spells tokens, with spaces between them. -/
inductive Spells : List Char → List Token → Prop
  | nil {spaces : List Char} (blank : ∀ c ∈ spaces, isSpace c = true) : Spells spaces []
  | cons {spaces rest : List Char} {t : Token} {ts : List Token}
      (blank : ∀ c ∈ spaces, isSpace c = true) (legible : t.Legible)
      (ends : t.isScalar = true → Ends rest) (others : Spells rest ts) :
      Spells (spaces ++ t.text ++ rest) (t :: ts)

theorem Spells.lex? {s : List Char} {ts : List Token} (spells : Spells s ts) :
    lex? s = some ts := by
  induction spells with
  | @nil spaces blank =>
    have skipped : spaces.dropWhile isSpace = [] := List.dropWhile_eq_nil_iff.mpr blank
    rw [Json.lex?, dif_pos (by rw [skipped]; rfl)]
  | cons blank legible ends others ih =>
    rw [lex?_text legible ends blank, ih]
    rfl

/-- No two scalars stand next to each other. -/
def Separated (ts : List Token) : Prop :=
  ts.IsChain fun t u => ¬(t.isScalar = true ∧ u.isScalar = true)

theorem Separated.cons {t : Token} {ts : List Token} (bracket : t.isScalar = false)
    (others : Separated ts) : Separated (t :: ts) :=
  List.isChain_cons.mpr ⟨fun u _ both => by simp [bracket] at both, others⟩

theorem Separated.append {ts us : List Token} (first : Separated ts) (second : Separated us)
    (bracket : ∀ u ∈ us.head?, u.isScalar = false) : Separated (ts ++ us) :=
  List.isChain_append.mpr ⟨first, second, fun t _ u head both => by simp [bracket u head] at both⟩

/-- A field is its name, a colon and its value. -/
theorem Separated.field {ts : List Token} (k : String) (value : Separated ts) :
    Separated (.str k.toList :: .colon :: ts) := by
  have behind : Separated (.colon :: ts) := value.cons rfl
  refine List.isChain_cons.mpr ⟨fun u head both => ?_, behind⟩
  cases head
  cases both.2

theorem head?_itemTokens (vs : List Json) : ∀ t ∈ (itemTokens vs).head?, t.isScalar = false := by
  intro t head
  cases vs <;> (cases head; rfl)

theorem head?_fieldTokens (fs : List (String × Json)) :
    ∀ t ∈ (fieldTokens fs).head?, t.isScalar = false := by
  intro t head
  cases fs <;> (cases head; rfl)

mutual

theorem separated_tokens : ∀ v : Json, Separated v.tokens
  | .null | .bool _ | .int _ | .float _ | .str _ => .singleton _
  | .arr [] | .obj [] => .cons rfl (.singleton _)
  | .arr (v :: vs) =>
    .cons rfl ((separated_tokens v).append (separated_itemTokens vs) (head?_itemTokens vs))
  | .obj ((k, v) :: fs) =>
    .cons rfl
      (((separated_tokens v).field k).append (separated_fieldTokens fs) (head?_fieldTokens fs))

theorem separated_itemTokens : ∀ vs : List Json, Separated (itemTokens vs)
  | [] => .singleton _
  | v :: vs =>
    .cons rfl ((separated_tokens v).append (separated_itemTokens vs) (head?_itemTokens vs))

theorem separated_fieldTokens : ∀ fs : List (String × Json), Separated (fieldTokens fs)
  | [] => .singleton _
  | (k, v) :: fs =>
    .cons rfl
      (((separated_tokens v).field k).append (separated_fieldTokens fs) (head?_fieldTokens fs))

end

/-- Tokens written without spaces are read back. -/
theorem spells_text {ts : List Token} (legible : ∀ t ∈ ts, t.Legible)
    (separated : Separated ts) : Spells (ts.flatMap Token.text) ts := by
  induction ts with
  | nil => exact .nil (List.forall_mem_nil _)
  | cons t ts ih =>
    obtain ⟨first, others⟩ := List.forall_mem_cons.mp legible
    obtain ⟨apart, separated⟩ := List.isChain_cons.mp separated
    have noSpaces : ∀ c ∈ [], isSpace c = true := List.forall_mem_nil _
    refine .cons noSpaces first (fun scalar => ?_) (ih others separated)
    cases ts with
    | nil => exact fun c absurd => by cases absurd
    | cons u ts =>
      -- The next token is a bracket or a separator.
      have bracket := apart u rfl
      intro c head
      cases u with
      | null | bool b | int n | float x | str s => exact (bracket ⟨scalar, rfl⟩).elim
      | _ =>
        cases head
        rfl

end Json

end Quorum
