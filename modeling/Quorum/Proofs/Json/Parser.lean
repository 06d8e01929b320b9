import Quorum.Json.Parser
import Quorum.Proofs.Json.Lexer
import Quorum.Proofs.Text.Utf8

/-!
# JSON documents are read back

A document without other numbers than integers, which are not too long, and without too deep a
nesting is read as it is written.

## Main definitions

* `Json.Legible` — the documents that are read as they are written

## Main results

* `Json.Reader.run_tokens` — the tokens of a document are read as the document
* `Json.ofBytes?_encode` — a document is read back from the bytes it is written to
-/

namespace Quorum

namespace Json

/-- Documents that are read as they are written: with integers of at most 4300 characters, no other
numbers, and lists and objects at most `room` deep. -/
inductive Legible : (room : ℕ) → Json → Prop
  | null {room : ℕ} : Legible room .null
  | bool {room : ℕ} (b : Bool) : Legible room (.bool b)
  | int {room : ℕ} {n : ℤ} (short : (intText n).length ≤ 4300) : Legible room (.int n)
  | str {room : ℕ} (s : String) : Legible room (.str s)
  | arr {room : ℕ} {vs : List Json} (items : ∀ v ∈ vs, Legible room v) :
    Legible (room + 1) (.arr vs)
  | obj {room : ℕ} {fs : List (String × Json)} (fields : ∀ f ∈ fs, Legible room f.2) :
    Legible (room + 1) (.obj fs)

namespace Reader

theorem run_cons {r r' : Reader} {t : Token} (step : r.step t = some r') (ts : List Token) :
    r.run (t :: ts) = r'.run ts := by
  rw [run, step]

/-- The first item of a list is read like any other. -/
theorem run_firstItem (v : Json) (stack : List Frame) (ts : List Token) :
    run (.reading stack .firstItem) (v.tokens ++ ts) =
      run (.reading stack .value) (v.tokens ++ ts) := by
  obtain ⟨t, r, tokens, notEnd⟩ : ∃ t r, v.tokens = t :: r ∧ t ≠ .closeArr := by
    cases v with
    | arr vs => cases vs <;> exact ⟨_, _, rfl, Token.noConfusion⟩
    | obj fs => cases fs <;> exact ⟨_, _, rfl, Token.noConfusion⟩
    | _ => exact ⟨_, _, rfl, Token.noConfusion⟩
  rw [tokens, List.cons_append, run, run, step, step, if_neg notEnd]

/-- A name and the colon behind it. -/
theorem run_name {expect : Expect} (names : expect = .name ∨ expect = .firstName)
    (done : List (String × Json)) (last k : String) (stack : List Frame) (ts : List Token) :
    run (.reading (.fields done last :: stack) expect) (.str k.toList :: .colon :: ts) =
      run (.reading (.fields done k :: stack) .value) ts := by
  have named : step (.reading (.fields done last :: stack) expect) (.str k.toList) =
      some (.reading (.fields done k :: stack) .colon) := by
    obtain rfl | rfl := names
    · rw [step, name, String.ofList_toList]
    · rw [step, if_neg Token.noConfusion, name, String.ofList_toList]
  rw [run_cons named]
  rfl

mutual

/-- The tokens of a document are read as the document. -/
theorem run_tokens : ∀ {room : ℕ} (v : Json) (_ : v.Legible room) (stack : List Frame)
    (ts : List Token), stack.length + room ≤ maxDepth →
    run (.reading stack .value) (v.tokens ++ ts) = run (put v stack) ts
  | _, .null, _, _, _, _ | _, .bool _, _, _, _, _ | _, .int _, _, _, _, _ => rfl
  | _, .str s, _, stack, ts, _ => by
    have read : step (.reading stack .value) (.str s.toList) = some (put (.str s) stack) := by
      rw [step, value, String.ofList_toList]
    exact run_cons read ts
  | _, .arr vs, .arr items, stack, ts, shallow => by
    have opened : step (.reading stack .value) .openArr =
        some (.reading (.items [] :: stack) .firstItem) := if_pos (by omega)
    cases vs with
    | nil => exact run_cons opened (.closeArr :: ts)
    | cons v vs =>
      obtain ⟨legible, legibles⟩ := List.forall_mem_cons.mp items
      have first := run_tokens v legible (.items [] :: stack) (itemTokens vs ++ ts) (by
        rw [List.length_cons]
        omega)
      have others := run_itemTokens vs legibles [v] stack ts (by omega)
      rw [tokens, List.cons_append, List.cons_append, List.append_assoc, run_cons opened,
        run_firstItem, first]
      exact others
  | _, .obj fs, .obj fields, stack, ts, shallow => by
    have opened : step (.reading stack .value) .openObj =
        some (.reading (.fields [] "" :: stack) .firstName) := if_pos (by omega)
    cases fs with
    | nil => exact run_cons opened (.closeObj :: ts)
    | cons f fs =>
      obtain ⟨k, v⟩ := f
      obtain ⟨legible, legibles⟩ := List.forall_mem_cons.mp fields
      have first := run_tokens v legible (.fields [] k :: stack) (fieldTokens fs ++ ts) (by
        rw [List.length_cons]
        omega)
      have others := run_fieldTokens fs legibles [(k, v)] k stack ts (by omega)
      rw [tokens]
      simp only [List.cons_append, List.append_assoc]
      rw [run_cons opened, run_name (.inr rfl), first]
      exact others

/-- What follows the first items of a list is read as the items after them. -/
theorem run_itemTokens : ∀ {room : ℕ} (vs : List Json) (_ : ∀ v ∈ vs, v.Legible room)
    (done : List Json) (stack : List Frame) (ts : List Token),
    stack.length + 1 + room ≤ maxDepth →
    run (.reading (.items done :: stack) .more) (itemTokens vs ++ ts) =
      run (put (.arr (done.reverse ++ vs)) stack) ts
  | _, [], _, done, stack, ts, _ => by
    rw [List.append_nil]
    rfl
  | _, v :: vs, items, done, stack, ts, shallow => by
    obtain ⟨legible, legibles⟩ := List.forall_mem_cons.mp items
    have comma : step (.reading (.items done :: stack) .more) .comma =
        some (.reading (.items done :: stack) .value) := rfl
    have item := run_tokens v legible (.items done :: stack) (itemTokens vs ++ ts) (by
      rw [List.length_cons]
      omega)
    have others := run_itemTokens vs legibles (v :: done) stack ts shallow
    rw [List.reverse_cons, List.append_assoc, List.singleton_append] at others
    rw [itemTokens, List.cons_append, List.cons_append, List.append_assoc, run_cons comma, item]
    exact others

/-- What follows the first fields of an object is read as the fields after them. -/
theorem run_fieldTokens : ∀ {room : ℕ} (fs : List (String × Json))
    (_ : ∀ f ∈ fs, f.2.Legible room) (done : List (String × Json)) (last : String)
    (stack : List Frame) (ts : List Token), stack.length + 1 + room ≤ maxDepth →
    run (.reading (.fields done last :: stack) .more) (fieldTokens fs ++ ts) =
      run (put (.obj (done.reverse ++ fs)) stack) ts
  | _, [], _, done, last, stack, ts, _ => by
    rw [List.append_nil]
    rfl
  | _, (k, v) :: fs, fields, done, last, stack, ts, shallow => by
    obtain ⟨legible, legibles⟩ := List.forall_mem_cons.mp fields
    have comma : step (.reading (.fields done last :: stack) .more) .comma =
        some (.reading (.fields done last :: stack) .name) := rfl
    have field := run_tokens v legible (.fields done k :: stack) (fieldTokens fs ++ ts) (by
      rw [List.length_cons]
      omega)
    have others := run_fieldTokens fs legibles ((k, v) :: done) k stack ts shallow
    rw [List.reverse_cons, List.append_assoc, List.singleton_append] at others
    rw [fieldTokens]
    simp only [List.cons_append, List.append_assoc]
    rw [run_cons comma, run_name (.inl rfl), field]
    exact others

end

end Reader

mutual

theorem legible_tokens : ∀ {room : ℕ} (v : Json), v.Legible room → ∀ t ∈ v.tokens, t.Legible
  | _, .null, _ | _, .bool _, _ | _, .str _, _ => List.forall_mem_singleton.mpr trivial
  | _, .int _, .int short => List.forall_mem_singleton.mpr short
  | _, .arr [], _ | _, .obj [], _ =>
    List.forall_mem_cons.mpr ⟨trivial, List.forall_mem_singleton.mpr trivial⟩
  | _, .arr (v :: vs), .arr items => by
    obtain ⟨legible, legibles⟩ := List.forall_mem_cons.mp items
    exact List.forall_mem_append.mpr ⟨List.forall_mem_cons.mpr ⟨trivial, legible_tokens v legible⟩,
      legible_itemTokens vs legibles⟩
  | _, .obj ((k, v) :: fs), .obj fields => by
    obtain ⟨legible, legibles⟩ := List.forall_mem_cons.mp fields
    simp only [tokens, List.cons_append, List.forall_mem_cons, List.forall_mem_append]
    exact ⟨trivial, trivial, trivial, legible_tokens v legible, legible_fieldTokens fs legibles⟩

theorem legible_itemTokens : ∀ {room : ℕ} (vs : List Json), (∀ v ∈ vs, v.Legible room) →
    ∀ t ∈ itemTokens vs, t.Legible
  | _, [], _ => List.forall_mem_singleton.mpr trivial
  | _, v :: vs, items => by
    obtain ⟨legible, legibles⟩ := List.forall_mem_cons.mp items
    simp only [itemTokens, List.cons_append, List.forall_mem_cons, List.forall_mem_append]
    exact ⟨trivial, legible_tokens v legible, legible_itemTokens vs legibles⟩

theorem legible_fieldTokens : ∀ {room : ℕ} (fs : List (String × Json)),
    (∀ f ∈ fs, f.2.Legible room) → ∀ t ∈ fieldTokens fs, t.Legible
  | _, [], _ => List.forall_mem_singleton.mpr trivial
  | _, (k, v) :: fs, fields => by
    obtain ⟨legible, legibles⟩ := List.forall_mem_cons.mp fields
    simp only [fieldTokens, List.cons_append, List.forall_mem_cons, List.forall_mem_append]
    exact ⟨trivial, trivial, trivial, legible_tokens v legible, legible_fieldTokens fs legibles⟩

end

/-- Text that spells the tokens of a document is read as the document. -/
theorem Spells.parse? {s : List Char} {v : Json} (spells : Spells s v.tokens)
    (legible : v.Legible maxDepth) : Json.parse? s = some v := by
  have read := Reader.run_tokens v legible [] [] (Nat.zero_add _).le
  rw [List.append_nil] at read
  rw [Json.parse?, spells.lex?]
  simp only [bind, Option.bind_some, read]
  rfl

/-- A document is read back from the bytes it is written to. -/
theorem ofBytes?_encode {v : Json} (legible : v.Legible maxDepth) :
    ofBytes? (Utf8.encode v.compact) = some v := by
  have spells := spells_text (legible_tokens v legible) (separated_tokens v)
  rw [ofBytes?, Utf8.decode?_encode, compact, String.toList_ofList]
  exact spells.parse? legible

end Json

end Quorum
