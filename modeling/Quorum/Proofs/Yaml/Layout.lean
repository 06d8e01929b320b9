import Mathlib.Data.List.TakeWhile
import Mathlib.Logic.Relation
import Quorum.Proofs.Yaml.Cursor
import Quorum.Yaml.Layout

/-!
# Reading the layout of a text

A layout carries what has been read: marks in front of which keys may still be put, and the
indentations that are open. Moving to the next token over spaces and a line end gives up the words
that are no keys any more, and ends what the column of the token ends. Text is read one token after
the other, and each token makes the rest shorter, so reading comes to the end of the text.

## Main definitions

* `Yaml.Layout.Carries` — what has been read outside brackets, and the open indentations
* `Yaml.Layout.At` — the next thing to read is an entry at a column, or the end of what surrounds it
* `Yaml.Layout.Reads` — one token is read

## Main results

* `Yaml.Layout.at_of_lineFeed`, `Yaml.Layout.at_of_opens` — the state behind the end of a line
* `Yaml.Layout.At.blockEnd`, `Yaml.Layout.At.next_end` — the ends of mappings and of the text
* `Yaml.Layout.scanFrom_eq`, `Yaml.Layout.scanFrom_eq_of_error` — what is read token by token is
  scanned
-/

namespace Quorum

namespace Yaml

namespace Layout

variable {l m : Layout} {column next : ℕ} {indent : ℤ} {outer : List ℤ} {ts : List Token}
  {r : List Char}

section Tokens

/-! ### Tokens and slots -/

/-- The tokens that a mark stands for. -/
def resolve (fillings : List Filling) : Mark → List Token
  | .token t => [t]
  | .slot n =>
    match fillings.find? fun f => f.slot == n with
    | some f => if f.starts then [.mappingStart, .key] else [.key]
    | none => []

theorem tokens_eq (l : Layout) : l.tokens = l.marks.reverse.flatMap (resolve l.fillings) :=
  rfl

theorem settled_eq (l : Layout) :
    l.settled = (l.marks.reverse.takeWhile l.isSettled).flatMap (resolve l.fillings) := by
  rw [settled, tokens_eq, List.reverse_reverse]

/-- With all candidates left behind, every token is certain. -/
theorem settled_of_stale {l : Layout} (stale : ∀ e ∈ l.candidates, l.isStale e.2 = true) :
    l.settled = l.tokens := by
  have all : ∀ mark ∈ l.marks.reverse, l.isSettled mark = true := by
    intro mark _
    cases mark with
    | token t => rfl
    | slot n =>
      rw [isSettled, List.all_eq_true]
      intro e member
      rw [stale e member, Bool.or_true]
  rw [settled_eq, tokens_eq, List.takeWhile_eq_self_iff.mpr all]

/-- A filling does not matter for marks without its slot. -/
theorem flatMap_resolve_cons {f : Filling} {marks : List Mark} (other : Mark.slot f.slot ∉ marks)
    (fillings : List Filling) :
    marks.flatMap (resolve (f :: fillings)) = marks.flatMap (resolve fillings) := by
  refine List.flatMap_congr fun mark member => ?_
  cases mark with
  | token t => rfl
  | slot n =>
    have apart : f.slot ≠ n := by
      rintro rfl
      exact other member
    simp [resolve, apart]

/-- A slot that has not been filled is no token. -/
theorem resolve_slot {fillings : List Filling} {n : ℕ} (free : ∀ f ∈ fillings, f.slot < n) :
    resolve fillings (.slot n) = [] := by
  have none : (fillings.find? fun f => f.slot == n) = none := by
    refine List.find?_eq_none.mpr fun f member => ?_
    have := free f member
    simp
    omega
  simp [resolve, none]

/-- What has been read outside brackets, and the open indentations. The slots in use have been given
out. -/
structure Carries (l : Layout) (indent : ℤ) (outer : List ℤ) (ts : List Token) : Prop where
  depth : l.depth = 0
  indent : l.indent = indent
  outer : l.outer = outer
  tokens : l.tokens = ts
  filled : ∀ f ∈ l.fillings, f.slot < l.slots
  marked : ∀ n, Mark.slot n ∈ l.marks → n < l.slots

namespace Carries

theorem emit (carries : l.Carries indent outer ts) (t : Token) :
    (l.emit t).Carries indent outer (ts ++ [t]) where
  depth := carries.depth
  indent := carries.indent
  outer := carries.outer
  tokens := by
    rw [tokens_eq, ← carries.tokens, tokens_eq]
    simp [Layout.emit, resolve]
  filled := carries.filled
  marked n member := carries.marked n (by simpa [Layout.emit] using member)

theorem moveTo (carries : l.Carries indent outer ts) (k : Cursor) :
    (l.moveTo k).Carries indent outer ts :=
  ⟨carries.depth, carries.indent, carries.outer, carries.tokens, carries.filled, carries.marked⟩

theorem allowKey (carries : l.Carries indent outer ts) (b : Bool) :
    (l.allowKey b).Carries indent outer ts :=
  ⟨carries.depth, carries.indent, carries.outer, carries.tokens, carries.filled, carries.marked⟩

theorem candidates (carries : l.Carries indent outer ts) (cs : List (ℕ × Candidate)) :
    { l with candidates := cs }.Carries indent outer ts :=
  ⟨carries.depth, carries.indent, carries.outer, carries.tokens, carries.filled, carries.marked⟩

end Carries

end Tokens

section Moving

/-! ### Moving to the next token -/

theorem skipMark_of_ne (other : l.place.rest.head? ≠ some byteOrderMark) : l.skipMark = l := by
  refine if_neg fun mark => other mark.2

theorem skip_spaces (opens : Opens r) {n : ℕ} (starts : l.place.rest = List.replicate n ' ' ++ r)
    (fuel : ℕ) : skip (fuel + 1) l = l.moveTo (l.place.forward n) := by
  have behind : (l.place.forward n).rest = r := by simpa using l.place.rest_forward starts
  have stops : ((l.place.forward n).rest.head?.any isBreak) = false := by
    rw [behind]
    cases r with
    | nil => rfl
    | cons c r => simpa using (opens c rfl).1.isBreak_eq
  have place : l.place.skipSpaces.skipComment = l.place.forward n := by
    rw [l.place.skipSpaces_replicate opens starts,
      Cursor.skipComment_of_opens (by rw [behind]; exact opens)]
  unfold skip
  simp only [place, stops, Bool.false_eq_true, if_false]

/-- A new line allows a key. -/
theorem skip_lineFeed (outside : l.depth = 0) (opens : Opens r) {n : ℕ}
    (starts : l.place.rest = '\n' :: (List.replicate n ' ' ++ r)) (fuel : ℕ) :
    skip (fuel + 2) l = (l.allowKey true).moveTo (l.place.forward (n + 1)) := by
  have none : l.place.skipSpaces = l.place := by
    simp [Cursor.skipSpaces, starts, Cursor.forward]
  have place : l.place.skipSpaces.skipComment = l.place := by
    rw [none, Cursor.skipComment, if_neg (by simp [starts])]
  have breaks : (l.place.rest.head?.any isBreak) = true := by
    rw [starts]
    rfl
  have behind : ((l.moveTo l.place.step).allowKey true).place.rest = List.replicate n ' ' ++ r :=
    Cursor.rest_step starts
  have allowed : (l.keyAllowed || l.depth == 0) = true := by simp [outside]
  unfold skip
  simp only [place, breaks, if_true, allowed, skip_spaces opens behind fuel]
  rfl

/-- Only candidates that nothing requires are given up. -/
theorem dropStale_eq (free : ∀ e ∈ l.candidates, e.2.required = false ∨ l.isStale e.2 = false) :
    l.dropStale = .ok { l with candidates := l.candidates.filter fun e => !l.isStale e.2 } := by
  refine if_neg ?_
  simp only [List.any_eq_true, Bool.and_eq_true, not_exists, not_and]
  intro e member required
  rcases free e member with optional | fresh
  · simp [optional] at required
  · simp [fresh]

/-- Behind a line end no candidate is left. -/
theorem dropStale_of_line (behind : ∀ e ∈ l.candidates,
    e.2.required = false ∧ e.2.place.line < l.place.line) :
    l.dropStale = .ok { l with candidates := [] } := by
  rw [dropStale_eq fun e member => .inl (behind e member).1]
  have none : (l.candidates.filter fun e => !l.isStale e.2) = [] := by
    refine List.filter_eq_nil_iff.mpr fun e member => ?_
    have := (behind e member).2
    simp [isStale]
    omega
  rw [none]

/-- Without indentation to end, nothing is ended. -/
theorem unwind_of_le {c : ℤ} (within : l.indent ≤ c) : l.unwind c = l := by
  unfold unwind
  split
  · rfl
  · have stays : unwindTo c l.indent l.outer l.marks = (l.indent, l.outer, l.marks) := by
      cases shape : l.outer with
      | nil => simp [unwindTo, within]
      | cons i outer => simp [unwindTo, within]
    rw [stays]

/-- The token at the place reached, or the end of the text. -/
def turn (l : Layout) : Except Failure (Bool × Layout) :=
  match l.place.rest with
  | [] => (l.finish).map fun l => (true, l)
  | c :: r => (l.token c r).map fun l => (false, l)

theorem next_eq (approached : l.approach = .ok m) : l.next = m.turn := by
  unfold next turn
  rw [approached]
  rfl

/-- One token is read before the end of the text. -/
def Reads (l m : Layout) : Prop :=
  l.next = .ok (false, m) ∧ m.place.rest.length < l.place.rest.length

/-- A place between entries: nothing is pending, and a key may start. -/
structure Idle (l : Layout) (r : List Char) (column : ℕ) (indent : ℤ) (outer : List ℤ)
    (ts : List Token) : Prop extends l.Carries indent outer ts where
  rest : l.place.rest = r
  column_eq : l.place.column = column
  keyAllowed : l.keyAllowed = true
  noCandidates : l.candidates = []

/-- The next thing to read is an entry at a column, or the end of what surrounds it; what that
column ends is not ended yet. -/
def At (l : Layout) (r : List Char) (column : ℕ) (indent : ℤ) (outer : List ℤ) (ts : List Token) :
    Prop :=
  ∃ m : Layout, l.approach = .ok (m.unwind column) ∧ m.Idle r column indent outer ts ∧
    r.length ≤ l.place.rest.length

theorem approach_eq (mark : l.skipMark = l) (moved : skip (l.place.rest.length + 1) l = m)
    {m' : Layout} (dropped : m.dropStale = .ok m') :
    l.approach = .ok (m'.unwind m'.place.column) := by
  unfold approach
  rw [mark, moved, dropped]
  rfl

/-- Behind a line end nothing is pending. -/
theorem at_of_lineFeed (carries : l.Carries indent outer ts) (opens : Opens r)
    (starts : l.place.rest = '\n' :: (List.replicate next ' ' ++ r))
    (pending : ∀ e ∈ l.candidates, e.2.required = false ∧ e.2.place.line ≤ l.place.line) :
    l.At r next indent outer ts := by
  have mark : l.skipMark = l := skipMark_of_ne (by rw [starts, List.head?_cons]; decide)
  have starts' : l.place.rest = ('\n' :: List.replicate next ' ') ++ r := starts
  have printed : ∀ c ∈ '\n' :: List.replicate next ' ', IsPrinted c :=
    List.forall_mem_cons.mpr ⟨.inr (.inr rfl), fun c member =>
      .inr (.inl (List.eq_of_mem_replicate member))⟩
  have rest := l.place.rest_forward starts'
  have line := l.place.line_forward starts' printed
  rw [List.length_cons, List.length_replicate] at rest line
  have more : l.place.line < (l.place.forward (next + 1)).line := by
    rw [line, List.count_cons_self]
    omega
  have dropped : ((l.allowKey true).moveTo (l.place.forward (next + 1))).dropStale =
      .ok { (l.allowKey true).moveTo (l.place.forward (next + 1)) with candidates := [] } :=
    dropStale_of_line fun e member =>
      ⟨(pending e member).1, (pending e member).2.trans_lt more⟩
  have column_eq := l.place.column_forward_lineFeed starts
  have moved : skip (l.place.rest.length + 1) l =
      (l.allowKey true).moveTo (l.place.forward (next + 1)) := by
    rw [starts, List.length_cons]
    exact skip_lineFeed carries.depth opens starts _
  refine ⟨{ (l.allowKey true).moveTo (l.place.forward (next + 1)) with candidates := [] },
    (approach_eq mark moved dropped).trans ?_,
    ⟨((carries.allowKey true).moveTo _).candidates [], rest, column_eq, rfl, rfl⟩, ?_⟩
  · exact congrArg (fun c : ℕ => Except.ok (unwind _ c)) column_eq
  · rw [starts]
    simp
    omega

/-- Behind the line end that a plain scalar has passed nothing is pending. -/
theorem at_of_opens (carries : l.Carries indent outer ts) (opens : Opens r)
    (starts : l.place.rest = r) (column_eq : l.place.column = next) (allowed : l.keyAllowed = true)
    (pending : ∀ e ∈ l.candidates, e.2.required = false ∧ e.2.place.line < l.place.line) :
    l.At r next indent outer ts := by
  have mark : l.skipMark = l := skipMark_of_ne (by rw [starts]; exact opens.ne_byteOrderMark)
  have here : skip (l.place.rest.length + 1) l = l :=
    skip_spaces (n := 0) opens starts l.place.rest.length
  refine ⟨{ l with candidates := [] },
    (approach_eq mark here (dropStale_of_line pending)).trans ?_,
    ⟨carries.candidates [], starts, column_eq, allowed, rfl⟩, starts ▸ le_rfl⟩
  exact congrArg (fun c : ℕ => Except.ok (unwind _ c)) column_eq

theorem Idle.candidate?_eq (idle : l.Idle r column indent outer ts) : l.candidate? = none := by
  rw [candidate?, idle.noCandidates]
  rfl

/-- A column left of a mapping ends it. -/
theorem At.blockEnd {i : ℤ} (stands : l.At r next indent (i :: outer) ts) (less : next < indent) :
    l.At r next i outer (ts ++ [.blockEnd]) := by
  obtain ⟨m, approached, idle, shorter⟩ := stands
  have carries := idle.toCarries.emit .blockEnd
  refine ⟨{ m.emit .blockEnd with indent := i, outer := outer }, ?_,
    ⟨⟨idle.depth, rfl, rfl, carries.tokens, carries.filled, carries.marked⟩, idle.rest,
      idle.column_eq, idle.keyAllowed, idle.noCandidates⟩, shorter⟩
  rw [approached]
  simp only [unwind, idle.depth, idle.indent, idle.outer, unwindTo, less, emit, if_true]
  rfl

/-- The end of a text of entries. -/
theorem At.next_end (stands : l.At [] 0 0 [-1] ts) :
    ∃ l' : Layout, l.next = .ok (true, l') ∧ l'.tokens = ts ++ [.blockEnd, .streamEnd] := by
  obtain ⟨m, approached, idle, -⟩ := stands
  rw [unwind_of_le (by simp [idle.indent])] at approached
  have ended : m.unwind (-1) = { m.emit .blockEnd with indent := -1, outer := [] } := by
    have unwound : unwindTo (-1) m.indent m.outer m.marks =
        (-1, [], .token .blockEnd :: m.marks) := by
      rw [idle.indent, idle.outer]
      simp [unwindTo]
    rw [unwind, if_neg (by simp [idle.depth]), unwound]
    rfl
  have free : Layout.candidate? { m.emit .blockEnd with indent := -1, outer := [] } = none :=
    idle.candidate?_eq
  refine ⟨Layout.emit { m.emit .blockEnd with indent := -1, outer := [] } .streamEnd, ?_, ?_⟩
  · rw [next_eq approached]
    unfold turn
    rw [idle.rest]
    dsimp only
    rw [Layout.finish, ended, dropCandidate, free]
    rfl
  · have carries := (idle.toCarries.emit .blockEnd).emit .streamEnd
    have tokens := carries.tokens
    rw [List.append_assoc] at tokens
    exact tokens

end Moving

/-- Scanning goes on behind the tokens that are read. -/
theorem scanFrom_reads (reads : Relation.ReflTransGen Reads l m) {fuel : ℕ}
    (enough : l.place.rest.length < fuel) : ∃ fuel', scanFrom fuel l = scanFrom (fuel' + 1) m := by
  -- Every token leaves less text than there was, so one unit of fuel for each is enough.
  induction reads using Relation.ReflTransGen.head_induction_on generalizing fuel with
  | refl => exact ⟨fuel - 1, by rw [Nat.sub_add_cancel (by omega)]⟩
  | head step _ ih =>
    obtain ⟨next, shorter⟩ := step
    obtain ⟨fuel, rfl⟩ := Nat.exists_eq_succ_of_ne_zero (by omega : fuel ≠ 0)
    obtain ⟨fuel', same⟩ := ih (by omega : _ < fuel)
    exact ⟨fuel', by simpa only [scanFrom, next] using same⟩

/-- What is read token by token is scanned. -/
theorem scanFrom_eq {l' : Layout} (reads : Relation.ReflTransGen Reads l m)
    (ends : m.next = .ok (true, l')) {fuel : ℕ} (enough : l.place.rest.length < fuel) :
    scanFrom fuel l = (l'.tokens, .malformed) := by
  obtain ⟨fuel', same⟩ := scanFrom_reads reads enough
  rw [same, scanFrom, ends]

/-- Scanning stops where nothing can be read. -/
theorem scanFrom_eq_of_error {f : Failure} (reads : Relation.ReflTransGen Reads l m)
    (fails : m.next = .error f) {fuel : ℕ} (enough : l.place.rest.length < fuel) :
    scanFrom fuel l = (m.settled, f) := by
  obtain ⟨fuel', same⟩ := scanFrom_reads reads enough
  rw [same, scanFrom, fails]

end Layout

end Yaml

end Quorum
