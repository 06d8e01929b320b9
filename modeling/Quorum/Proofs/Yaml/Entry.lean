import Quorum.Proofs.Yaml.Layout
import Quorum.Proofs.Yaml.Scalar

/-!
# Keys and values are read

A key that is written on the line of its value is read as a word; only the colon behind it shows
that it is a key, and that is seen only if the word has no line end and at most 1024 characters.
Other keys have a mark in front of them and their colon on a line of its own. A value stands right
of the column of its key, so it ends where the next line is not indented further than the key.

## Main definitions

* `Yaml.Layout.Behind` — the place behind the colon of a key
* `Yaml.Layout.Pending` — the place behind a word whose colon comes next

## Main results

* `Yaml.Layout.At.simpleKey`, `Yaml.Layout.At.markedKey`, `Yaml.Layout.At.markedValue` — keys
* `Yaml.Layout.At.longKey` — a word that is too long is no key
* `Yaml.Layout.Behind.scalar`, `Yaml.Layout.Behind.empty`, `Yaml.Layout.Behind.nested` — values
-/

namespace Quorum

namespace Yaml

namespace Layout

variable {l m : Layout} {column next : ℕ} {indent : ℤ} {outer : List ℤ} {ts : List Token}
  {s t r : List Char} {plain : Bool}

section Scalars

/-! ### Scalars -/

/-- A word that may be a key is noted where a key may start. -/
def noted (l : Layout) : Layout :=
  if l.keyAllowed then
    { l with
      candidates := (l.depth, ⟨l.slots, l.depth == 0 && l.indent == l.place.column, l.place⟩) ::
        l.candidates
      marks := .slot l.slots :: l.marks
      slots := l.slots + 1 }
  else l

theorem noteCandidate_eq (free : l.candidate? = none) : l.noteCandidate = .ok l.noted := by
  unfold noteCandidate noted dropCandidate
  rw [free]
  by_cases allowed : l.keyAllowed = true
  · rw [if_neg (by simp [allowed]), if_pos allowed]
    rfl
  · rw [if_pos (by simpa using allowed), if_neg allowed]

theorem Carries.noted (carries : l.Carries indent outer ts) : l.noted.Carries indent outer ts := by
  unfold Layout.noted
  split
  · refine ⟨carries.depth, carries.indent, carries.outer, ?_, fun f member => ?_,
      fun n member => ?_⟩
    · rw [tokens_eq, ← carries.tokens, tokens_eq]
      simp [resolve_slot carries.filled]
    · exact (carries.filled f member).trans (Nat.lt_succ_self _)
    · rcases List.mem_cons.mp member with same | earlier
      · cases same
        exact Nat.lt_succ_self _
      · exact (carries.marked n earlier).trans (Nat.lt_succ_self _)
  · exact carries

theorem place_noted (l : Layout) : l.noted.place = l.place := by
  unfold noted
  split <;> rfl

theorem word_eq (free : l.candidate? = none) {read : List Char → Except Failure (Token × List Char)}
    {t : Token} (reads : read l.place.rest.tail = .ok (t, r)) :
    l.word read =
      .ok (((l.noted.allowKey false).moveTo (l.place.upTo r)).emit t) := by
  unfold word
  rw [noteCandidate_eq free]
  change (read l.noted.place.rest.tail >>= fun p =>
    .ok (((l.noted.allowKey false).upTo p.2).emit p.1)) = _
  rw [place_noted, reads]
  change Except.ok (((l.noted.allowKey false).moveTo (l.noted.place.upTo r)).emit t) = _
  rw [place_noted]

/-- A quoted scalar is a word that may be a key. -/
theorem turn_quoted (written : ScalarText column false s t) (indented : 0 < column)
    (free : l.candidate? = none) (starts : l.place.rest = t ++ r)
    (closed : r.head? ≠ some Quorum.Quoted.apostrophe) :
    l.turn = .ok (false, ((l.noted.allowKey false).moveTo (l.place.forward t.length)).emit
      (.scalar false (String.ofList s))) := by
  rw [← l.place.upTo_append starts]
  cases written with
  | @single _ t written =>
    have token (u : List Char) : l.token Quorum.Quoted.apostrophe u =
        l.word fun s => (Quoted.read false s).map fun p =>
          (.scalar false (String.ofList p.1), p.2) := by
      simp [token, isTriple, Quorum.Quoted.apostrophe]
    have read : Quoted.read false l.place.rest.tail = .ok (s, r) := by
      rw [starts]
      simpa using written.read_eq indented closed
    unfold turn
    rw [starts, List.cons_append]
    dsimp only
    rw [token, word_eq free (by rw [read]; rfl)]
    rfl
  | @double _ t written =>
    have token (u : List Char) : l.token '"' u =
        l.word fun s => (Quoted.read true s).map fun p =>
          (.scalar false (String.ofList p.1), p.2) := by
      simp [token, isTriple, Quorum.Quoted.apostrophe]
    have read : Quoted.read true l.place.rest.tail = .ok (s, r) := by
      rw [starts]
      simpa using written.read_eq indented
    unfold turn
    rw [starts, List.cons_append]
    dsimp only
    rw [token, word_eq free (by rw [read]; rfl)]
    rfl

/-- What does not start like a mark may start a plain scalar. -/
theorem startsPlain_of_marksStart {c : Char} {u : List Char} (graphic : IsGraphic c)
    (start : marksStart (c :: u) = false) : startsPlain false c u = true := by
  simp only [marksStart, Bool.or_eq_false_iff] at start
  obtain ⟨⟨-, indicator⟩, sign⟩ := start
  by_cases signs : c = '?' ∨ c = ':' ∨ c = '-'
  · have ends : endsWord u = false := by rcases signs with rfl | rfl | rfl <;> simpa using sign
    rcases signs with rfl | rfl | rfl <;> simp [startsPlain, ends]
  · have none : "-?:,[]\x7b\x7d#&*!|>'\"%@`".toList.contains c = false := by
      simp at signs indicator ⊢
      tauto
    rw [startsPlain, graphic.isBlank_eq, graphic.isBreak_eq, none]
    rfl

/-- What does not start like a mark is read as a plain scalar. -/
theorem token_of_marksStart {c : Char} {u : List Char} (graphic : IsGraphic c)
    (start : marksStart (c :: u) = false) (outside : l.depth = 0) : l.token c u = l.plain := by
  have plain := startsPlain_of_marksStart graphic start
  simp only [marksStart, Bool.or_eq_false_iff] at start
  obtain ⟨⟨⟨dashes, dots⟩, indicator⟩, sign⟩ := start
  have dashes' : isTriple '-' (c :: u) = false := by
    rw [isTriple, dashes, Bool.false_and]
  have dots' : isTriple '.' (c :: u) = false := by
    rw [isTriple, dots, Bool.false_and]
  have other (d : Char) (member : d ∈ "#,[]\x7b\x7d&*!|>'\"%@`".toList) : c ≠ d := by
    rintro rfl
    rw [List.contains_iff_mem.mpr member] at indicator
    cases indicator
  have sign' (d : Char) (member : d = '?' ∨ d = ':' ∨ d = '-') :
      ¬(c = d ∧ (endsWord u = true)) := by
    rintro ⟨rfl, ends⟩
    rcases member with rfl | rfl | rfl <;> simp [ends] at sign
  have flow : (l.depth != 0) = false := by simp [outside]
  simp only [token, flow, dashes', dots', other '%' (by decide), other '[' (by decide),
    other '\x7b' (by decide), other ']' (by decide), other '\x7d' (by decide),
    other ',' (by decide), other '*' (by decide), other '&' (by decide), other '!' (by decide),
    other '|' (by decide), other '>' (by decide), other Quorum.Quoted.apostrophe (by decide),
    other '"' (by decide), sign' '?' (.inl rfl), sign' ':' (.inr (.inl rfl)),
    sign' '-' (.inr (.inr rfl)), plain, and_false, false_and, if_false, if_true, Bool.false_eq_true,
    false_or]

/-- A plain scalar is a word that may be a key; what is read is what the words give. -/
theorem turn_plain (written : PlainText column s t) (start : marksStart t = false)
    (outside : l.depth = 0) (free : l.candidate? = none) (starts : l.place.rest = t ++ r)
    (dash : r.head? ≠ some '-') (dot : r.head? ≠ some '.') {u : List Char} {broken : Bool}
    {k : Cursor} (read : Plain.read false l.margin l.place = (u, broken, k)) :
    l.turn = .ok (false, ((l.noted.allowKey broken).moveTo k).emit
      (.scalar true (String.ofList u))) := by
  have start' := marksStart_append written.nonempty start dash dot
  obtain ⟨c, v, shape⟩ := List.exists_cons_of_ne_nil
    (List.append_ne_nil_of_left_ne_nil written.nonempty r)
  have graphic : IsGraphic c := (written.opens r c (by rw [shape]; rfl)).1
  have noted_eq :
      Plain.read (l.noted.depth != 0) l.noted.margin l.noted.place = (u, broken, k) := by
    have margin : l.noted.depth = l.depth ∧ l.noted.margin = l.margin := by
      unfold noted
      split <;> exact ⟨rfl, rfl⟩
    rw [margin.1, margin.2, place_noted, outside]
    exact read
  have token : l.token c v = l.plain := token_of_marksStart graphic (shape ▸ start') outside
  unfold turn
  rw [starts, shape]
  dsimp only
  rw [token, plain, noteCandidate_eq free]
  change Except.map _ (
    let p := Plain.read (l.noted.depth != 0) l.noted.margin l.noted.place
    .ok (((l.noted.allowKey p.2.1).moveTo p.2.2).emit (.scalar true (String.ofList p.1)))) = _
  rw [noted_eq]
  rfl

/-- A scalar in front of the colon that makes it a key. -/
theorem turn_key (written : ScalarText column plain s t) (indented : 0 < column)
    (outside : l.depth = 0) (free : l.candidate? = none) (starts : l.place.rest = t ++ ':' :: r)
    (ends : endsWord r = true) (deep : l.margin ≤ l.place.column + 2)
    (wrapped : l.margin ≤ column) :
    l.turn = .ok (false, ((l.noted.allowKey false).moveTo (l.place.forward t.length)).emit
      (.scalar plain (String.ofList s))) := by
  cases plain with
  | false => exact turn_quoted written indented free starts (by simp [Quorum.Quoted.apostrophe])
  | true =>
    cases written with
    | plain start written =>
      exact turn_plain written start outside free starts (by simp) (by simp)
        (written.read_of_colon indented starts ends deep wrapped)

end Scalars

section Values

/-! ### Values -/

theorem openBrace_isGraphic : IsGraphic '\x7b' := by
  unfold IsGraphic
  decide

theorem closeBrace_isGraphic : IsGraphic '\x7d' := by
  unfold IsGraphic
  decide

/-- A place right of the column of a key, behind its colon: the value comes next. After a colon that
stands on a line of its own another key may start. -/
structure Behind (l : Layout) (r : List Char) (explicit : Bool) (column : ℕ) (outer : List ℤ)
    (ts : List Token) : Prop extends l.Carries column outer ts where
  rest : l.place.rest = r
  right : column < l.place.column
  keyAllowed : l.keyAllowed = explicit
  noCandidates : l.candidates = []

/-- A place between braces; the words noted before them are no keys that must come. -/
structure Inside (l : Layout) (r : List Char) (column : ℕ) (outer : List ℤ) (ts : List Token) :
    Prop where
  depth : l.depth = 1
  carries : { l with depth := 0 }.Carries column outer ts
  rest : l.place.rest = r
  optional : ∀ e ∈ l.candidates, e.1 = 0 ∧ e.2.required = false ∧ e.2.place.line ≤ l.place.line

namespace Behind

variable {explicit : Bool}

theorem margin_eq (behind : l.Behind r explicit column outer ts) : l.margin = column + 1 := by
  rw [margin, behind.indent]
  omega

theorem candidate?_eq (behind : l.Behind r explicit column outer ts) : l.candidate? = none := by
  rw [candidate?, behind.noCandidates]
  rfl

/-- A space in front of the value is moved over. -/
theorem space (behind : l.Behind (' ' :: r) explicit column outer ts) (opens : Opens r) :
    ∃ m : Layout, l.approach = .ok m ∧ m.Behind r explicit column outer ts ∧
      m.place = l.place.forward 1 := by
  have starts : l.place.rest = List.replicate 1 ' ' ++ r := behind.rest
  have mark : l.skipMark = l := skipMark_of_ne (by rw [behind.rest, List.head?_cons]; decide)
  have dropped : (l.moveTo (l.place.forward 1)).dropStale =
      .ok { l.moveTo (l.place.forward 1) with candidates := [] } :=
    dropStale_of_line fun e member => by
      rw [show (l.moveTo (l.place.forward 1)).candidates = [] from behind.noCandidates] at member
      cases member
  have column_eq : (l.place.forward 1).column = l.place.column + 1 :=
    l.place.column_forward (s := [' ']) starts (by simp [IsPrinted]) (by simp)
  have approached := approach_eq mark (skip_spaces opens starts _) dropped
  rw [unwind_of_le] at approached
  · exact ⟨_, approached, ⟨(behind.toCarries.moveTo _).candidates [],
      l.place.rest_forward (s := [' ']) starts, column_eq ▸ behind.right.trans (Nat.lt_succ_self _),
      behind.keyAllowed, rfl⟩, rfl⟩
  · change l.indent ≤ ((l.place.forward 1).column : ℤ)
    rw [behind.indent, column_eq]
    have := behind.right
    omega

/-- What is noted right of a key is not required. -/
theorem noted_candidates (behind : l.Behind r explicit column outer ts) :
    ∀ e ∈ l.noted.candidates, e.1 = 0 ∧ e.2.required = false ∧ e.2.place = l.place := by
  intro e member
  unfold noted at member
  split at member
  · rw [behind.noCandidates] at member
    obtain rfl := List.mem_singleton.mp member
    have right := behind.right
    refine ⟨behind.depth, ?_, rfl⟩
    simp only [behind.indent, Bool.and_eq_false_iff, beq_eq_false_iff_ne]
    right
    omega
  · rw [behind.noCandidates] at member
    cases member

/-- The scalar at the end of a line is read, and nothing is pending behind it. -/
theorem turn_scalar (behind : l.Behind (t ++ '\n' :: (List.replicate next ' ' ++ r)) explicit column
    outer ts) (written : ScalarText (column + 2) plain s t) (opens : Opens r)
    (less : next ≤ column) :
    ∃ l' : Layout, l.turn = .ok (false, l') ∧
      l'.At r next column outer (ts ++ [.scalar plain (String.ofList s)]) ∧
      l'.place.rest.length < l.place.rest.length := by
  have starts := behind.rest
  have passed := l.place.rest_forward starts
  have line := l.place.line_forward starts written.isPrinted
  have long := List.length_pos_iff.mpr written.nonempty
  cases plain with
  | false =>
    refine ⟨_, turn_quoted written (by omega) behind.candidate?_eq starts
      (by simp [Quorum.Quoted.apostrophe]), ?_, ?_⟩
    · refine at_of_lineFeed (((behind.noted.allowKey false).moveTo _).emit _) opens passed
        fun e member => ?_
      obtain ⟨-, optional, place⟩ := behind.noted_candidates e member
      refine ⟨optional, ?_⟩
      rw [place]
      exact line ▸ Nat.le_add_right _ _
    · change (l.place.forward t.length).rest.length < _
      rw [passed, starts, List.length_append]
      omega
  | true =>
    obtain ⟨start, written'⟩ : marksStart t = false ∧ PlainText (column + 2) s t := by
      cases written with
      | plain start written => exact ⟨start, written⟩
    have right := behind.right
    have read : Plain.read false l.margin l.place =
        (s, true, (l.place.forward t.length).forward (next + 1)) := by
      rw [behind.margin_eq]
      exact written'.read_of_lineFeed (by omega) opens starts (by omega) (by omega) (by omega)
    have gap : ((l.place.forward t.length).forward (next + 1)).rest = r := by
      simpa using (l.place.forward t.length).rest_forward
        (s := '\n' :: List.replicate next ' ') passed
    have printed : ∀ c ∈ '\n' :: List.replicate next ' ', IsPrinted c :=
      List.forall_mem_cons.mpr ⟨.inr (.inr rfl), fun c member =>
        .inr (.inl (List.eq_of_mem_replicate member))⟩
    have line' := (l.place.forward t.length).line_forward
      (s := '\n' :: List.replicate next ' ') passed printed
    rw [List.length_cons, List.length_replicate, List.count_cons_self] at line'
    refine ⟨_, turn_plain written' start behind.depth behind.candidate?_eq starts (by simp)
      (by simp) read, ?_, ?_⟩
    · refine at_of_opens (((behind.noted.allowKey true).moveTo _).emit _) opens gap
        ((l.place.forward t.length).column_forward_lineFeed passed) rfl fun e member => ?_
      obtain ⟨-, optional, place⟩ := behind.noted_candidates e member
      refine ⟨optional, ?_⟩
      rw [place]
      change l.place.line < ((l.place.forward t.length).forward (next + 1)).line
      omega
    · change ((l.place.forward t.length).forward (next + 1)).rest.length < _
      rw [gap, starts]
      simp
      omega

/-- A scalar as the value of a key. -/
theorem scalar (behind : l.Behind (' ' :: (t ++ '\n' :: (List.replicate next ' ' ++ r))) explicit
    column outer ts) (written : ScalarText (column + 2) plain s t) (opens : Opens r)
    (less : next ≤ column) :
    ∃ l' : Layout, Reads l l' ∧
      l'.At r next column outer (ts ++ [.scalar plain (String.ofList s)]) := by
  obtain ⟨m, approached, behind', place⟩ := behind.space (written.opens _)
  obtain ⟨l', turned, at_next, shorter⟩ := behind'.turn_scalar written opens less
  refine ⟨l', ⟨(next_eq approached).trans turned, shorter.trans ?_⟩, at_next⟩
  rw [behind'.rest, behind.rest]
  exact Nat.lt_succ_self _

/-- A mapping on the lines behind a key. -/
theorem nested (behind : l.Behind ('\n' :: (List.replicate (column + 2) ' ' ++ r)) explicit column
    outer ts) (opens : Opens r) : l.At r (column + 2 : ℕ) column outer ts :=
  at_of_lineFeed behind.toCarries opens behind.rest fun e member => by
    rw [behind.noCandidates] at member
    cases member

/-- A mapping that starts on the line of a colon that stands on its own. -/
theorem nested_of_explicit (behind : l.Behind (' ' :: r) true column outer ts) (opens : Opens r)
    (place : l.place.column = column + 1) : l.At r (column + 2 : ℕ) column outer ts := by
  obtain ⟨m, approached, behind', place'⟩ := behind.space opens
  have column_eq : (l.place.forward 1).column = l.place.column + 1 :=
    l.place.column_forward (s := [' ']) behind.rest (by simp [IsPrinted]) (by simp)
  refine ⟨m, ?_, ⟨behind'.toCarries, behind'.rest, ?_, behind'.keyAllowed, behind'.noCandidates⟩,
    ?_⟩
  · rw [unwind_of_le]
    · exact approached
    · rw [behind'.indent]
      omega
  · rw [place', column_eq, place]
  · rw [behind.rest]
    exact Nat.le_succ _

/-- A brace that opens is read. -/
theorem turn_openMap (behind : l.Behind ('\x7b' :: r) explicit column outer ts) :
    ∃ l' : Layout, l.turn = .ok (false, l') ∧ l'.Inside r column outer (ts ++ [.openMap]) := by
  have token : l.token '\x7b' r = l.openBracket .openMap := by simp [token, isTriple]
  have carries := behind.noted.emit .openMap
  have rest : (l.noted.place.forward 1).rest = r := by
    rw [place_noted]
    exact Cursor.rest_step behind.rest
  refine ⟨(({ l.noted with depth := l.noted.depth + 1 }.allowKey true).forward 1).emit .openMap, ?_,
    congrArg Nat.succ behind.noted.depth,
    ⟨rfl, carries.indent, carries.outer, carries.tokens, carries.filled, carries.marked⟩, rest,
    fun e member => ?_⟩
  · unfold turn
    rw [behind.rest]
    dsimp only
    rw [token, openBracket, noteCandidate_eq behind.candidate?_eq]
    rfl
  · obtain ⟨here, optional, place⟩ := behind.noted_candidates e member
    have line := l.place.line_forward (s := ['\x7b']) behind.rest
      (by simpa using .inl openBrace_isGraphic)
    refine ⟨here, optional, ?_⟩
    rw [place]
    change _ ≤ (l.noted.place.forward 1).line
    rw [place_noted]
    exact line ▸ Nat.le_add_right _ _

end Behind

theorem closeBracket_eq (free : l.candidate? = none) (inside : l.depth ≠ 0) (t : Token) :
    l.closeBracket t =
      .ok ((({ l with depth := l.depth - 1 }.allowKey false).forward 1).emit t) := by
  have kept : l.dropCandidate = .ok l := by rw [dropCandidate, free]
  unfold closeBracket
  rw [kept]
  exact if_neg inside

/-- A brace that closes is read. -/
theorem Inside.closeMap (inside : l.Inside ('\x7d' :: r) column outer ts) :
    ∃ l' : Layout, Reads l l' ∧ l'.Carries column outer (ts ++ [.closeMap]) ∧ l'.place.rest = r ∧
      ∀ e ∈ l'.candidates, e.2.required = false ∧ e.2.place.line ≤ l'.place.line := by
  let pending := l.candidates.filter fun e => !l.isStale e.2
  let m : Layout := { l with candidates := pending }
  have member_pending (e : ℕ × Candidate) (member : e ∈ pending) :=
    inside.optional e (List.mem_filter.mp member).1
  -- Nothing is ended inside brackets.
  have approached : l.approach = .ok m := by
    rw [approach_eq (skipMark_of_ne (by rw [inside.rest, List.head?_cons]; decide))
      (skip_spaces (n := 0) (opens_cons.mpr ⟨closeBrace_isGraphic, by decide⟩) inside.rest _)
      (dropStale_eq fun e member => .inl (inside.optional e member).2.1)]
    exact congrArg Except.ok (if_pos (inside.depth.trans_ne Nat.one_ne_zero))
  have free : m.candidate? = none := by
    have none : pending.find? (fun e => e.1 == l.depth) = none := by
      refine List.find?_eq_none.mpr fun e member => ?_
      rw [(member_pending e member).1, inside.depth]
      decide
    rw [candidate?]
    change (pending.find? fun e => e.1 == l.depth).map Prod.snd = _
    rw [none]
    rfl
  have token : m.token '\x7d' r = m.closeBracket .closeMap := by simp [token, isTriple]
  have carries := inside.carries.emit .closeMap
  have rest : (l.place.forward 1).rest = r := Cursor.rest_step inside.rest
  have line := l.place.line_forward (s := ['\x7d']) inside.rest
    (by simpa using .inl closeBrace_isGraphic)
  refine ⟨(({ m with depth := m.depth - 1 }.allowKey false).forward 1).emit .closeMap,
    ⟨(next_eq approached).trans ?_, ?_⟩,
    ⟨congrArg Nat.pred inside.depth, carries.indent, carries.outer, carries.tokens, carries.filled,
      carries.marked⟩, rest, fun e member => ?_⟩
  · unfold turn
    rw [show m.place.rest = '\x7d' :: r from inside.rest]
    dsimp only
    rw [token, closeBracket_eq free (inside.depth.trans_ne Nat.one_ne_zero)]
    rfl
  · change (l.place.forward 1).rest.length < _
    rw [rest, inside.rest]
    exact Nat.lt_succ_self _
  · obtain ⟨-, optional, earlier⟩ := member_pending e member
    exact ⟨optional, earlier.trans (line ▸ Nat.le_add_right _ _)⟩

/-- An empty mapping as the value of a key. -/
theorem Behind.empty {explicit : Bool} (behind : l.Behind
    (' ' :: '\x7b' :: '\x7d' :: '\n' :: (List.replicate next ' ' ++ r)) explicit column outer ts)
    (opens : Opens r) :
    ∃ l' : Layout, Relation.ReflTransGen Reads l l' ∧
      l'.At r next column outer (ts ++ [.openMap, .closeMap]) := by
  obtain ⟨m, approached, behind', -⟩ :=
    behind.space (opens_cons.mpr ⟨openBrace_isGraphic, by decide⟩)
  obtain ⟨l₁, turned, inside⟩ := behind'.turn_openMap
  obtain ⟨l₂, second, carries, rest, pending⟩ := inside.closeMap
  have first : Reads l l₁ := by
    refine ⟨(next_eq approached).trans turned, ?_⟩
    rw [inside.rest, behind.rest]
    simp
  rw [List.append_assoc] at carries
  exact ⟨l₂, .head first (.single second), at_of_lineFeed carries opens rest pending⟩

end Values

section Keys

/-! ### Keys -/

/-- Whether an entry is the first of its mapping is seen from the indentation around it. -/
def opened (indent : ℤ) (column : ℕ) : List Token := if indent < column then [.mappingStart] else []

/-- The indentations around the entries at a column. -/
def around (indent : ℤ) (column : ℕ) (outer : List ℤ) : List ℤ :=
  if indent < column then indent :: outer else outer

theorem isDeeper_eq (outside : l.depth = 0) : l.isDeeper column = decide (l.indent < column) := by
  simp [isDeeper, outside]

/-- Indentation that is not less is the innermost one afterwards. -/
theorem indentAt_eq (outside : l.depth = 0) (deep : l.indent ≤ column) : l.indentAt column =
    { l with indent := column, outer := around l.indent column l.outer } := by
  unfold indentAt around
  rw [isDeeper_eq outside]
  by_cases deeper : l.indent < column
  · simp [deeper]
  · have same : l.indent = column := by omega
    simp [← same]

/-- The colon behind a candidate makes it a key, and starts a mapping if it is the first. -/
theorem value_of_candidate {c : Candidate} (found : l.candidate? = some c) :
    l.value = .ok ((({ l.indentAt c.place.column with
      candidates := l.candidates.filter fun e => e.1 != l.depth
      fillings := ⟨c.slot, l.isDeeper c.place.column⟩ :: l.fillings
      }.allowKey false).forward 1).emit .value) := by
  unfold value
  rw [found]

theorem colon_isGraphic : IsGraphic ':' := by
  unfold IsGraphic
  decide

theorem mark_isGraphic : IsGraphic '?' := by
  unfold IsGraphic
  decide

theorem token_colon (ends : endsWord r = true) : l.token ':' r = l.value := by
  simp [token, isTriple, ends]

theorem token_mark (ends : endsWord r = true) : l.token '?' r = l.key := by
  simp [token, isTriple, ends]

/-- A word has been read whose colon comes next: the slot in front of it is still free. -/
structure Pending (l : Layout) (r : List Char) (column : ℕ) (indent : ℤ) (outer : List ℤ)
    (ts : List Token) (word : Token) (c : Candidate) (marks : List Mark) : Prop where
  depth : l.depth = 0
  indent : l.indent = indent
  outer : l.outer = outer
  marks_eq : l.marks = .token word :: .slot c.slot :: marks
  tokens : marks.reverse.flatMap (resolve l.fillings) = ts
  filled : ∀ f ∈ l.fillings, f.slot < c.slot
  marked : ∀ n, Mark.slot n ∈ marks → n < c.slot
  slots : c.slot < l.slots
  candidates : l.candidates = [(0, c)]
  start : c.place.column = column
  keyAllowed : l.keyAllowed = false
  rest : l.place.rest = ':' :: r
  right : column < l.place.column

/-- A word in front of a colon is read, and its length decides whether it still may be a key. -/
theorem At.word (stands : l.At (t ++ ':' :: r) column indent outer ts) (deep : indent ≤ column)
    (written : ScalarText (column + 2) plain s t) (line : '\n' ∉ t) (ends : endsWord r = true) :
    ∃ (l' : Layout) (c : Candidate) (marks : List Mark), Reads l l' ∧
      l'.Pending r column indent outer ts (.scalar plain (String.ofList s)) c marks ∧
      l'.isStale c = decide (1024 < t.length) := by
  obtain ⟨m, approached, idle, shorter⟩ := stands
  rw [unwind_of_le (idle.indent.trans_le deep)] at approached
  have starts := idle.rest
  have free := idle.candidate?_eq
  have margin : m.margin ≤ column + 1 := by
    rw [Layout.margin, idle.indent]
    omega
  have turned := turn_key written (by omega) idle.depth free starts ends
    (by rw [idle.column_eq]; omega) (by omega)
  have noted_eq : m.noted = { m with
      candidates := [(m.depth,
        ⟨m.slots, m.depth == 0 && m.indent == m.place.column, m.place⟩)]
      marks := .slot m.slots :: m.marks
      slots := m.slots + 1 } := by
    rw [noted, if_pos idle.keyAllowed, idle.noCandidates]
  have long := List.length_pos_iff.mpr written.nonempty
  -- The word stays on its line, so that its length alone decides.
  have line_eq := m.place.line_forward starts written.isPrinted
  rw [List.count_eq_zero_of_not_mem line] at line_eq
  rw [noted_eq] at turned
  refine ⟨_, ⟨m.slots, m.depth == 0 && m.indent == m.place.column, m.place⟩, m.marks,
    ⟨(next_eq approached).trans turned, ?_⟩, ⟨idle.depth, idle.indent, idle.outer, rfl,
      idle.tokens, idle.filled, idle.marked, Nat.lt_succ_self _, ?_, idle.column_eq, rfl,
      m.place.rest_forward starts, ?_⟩, ?_⟩
  · change (m.place.forward t.length).rest.length < _
    rw [m.place.rest_forward starts]
    rw [List.length_append] at shorter
    omega
  · exact congrArg (fun d => [(d, _)]) idle.depth
  · change column < (m.place.forward t.length).column
    rw [m.place.column_forward starts written.isPrinted line, idle.column_eq]
    omega
  · change ((m.place.line != (m.place.forward t.length).line) ||
      decide (m.place.index + 1024 < (m.place.forward t.length).index)) = _
    rw [line_eq, m.place.index_forward starts]
    simp

section Pending

variable {word : Token} {c : Candidate} {marks : List Mark}

/-- Nothing stands in front of the colon. -/
theorem Pending.skip_eq (pending : l.Pending r column indent outer ts word c marks) :
    skip (l.place.rest.length + 1) l.skipMark = l := by
  rw [skipMark_of_ne (by rw [pending.rest, List.head?_cons]; decide)]
  exact skip_spaces (n := 0) (opens_cons.mpr ⟨colon_isGraphic, by decide⟩) pending.rest _

theorem Pending.approach_eq (pending : l.Pending r column indent outer ts word c marks)
    (deep : indent ≤ column) {cs : List (ℕ × Candidate)}
    (dropped : l.dropStale = .ok { l with candidates := cs }) :
    l.approach = .ok { l with candidates := cs } := by
  have right := pending.right
  rw [approach, pending.skip_eq, dropped]
  refine congrArg Except.ok (unwind_of_le ?_)
  change l.indent ≤ l.place.column
  rw [pending.indent]
  omega

theorem Pending.turn_eq (pending : l.Pending r column indent outer ts word c marks)
    (ends : endsWord r = true) (cs : List (ℕ × Candidate)) :
    turn { l with candidates := cs } =
      (value { l with candidates := cs }).map fun l => (false, l) := by
  unfold turn
  rw [pending.rest]
  exact congrArg (Except.map fun l => (false, l)) (token_colon ends)

/-- The colon behind a word makes it a key. -/
theorem Pending.colon (pending : l.Pending r column indent outer ts word c marks)
    (deep : indent ≤ column) (fresh : l.isStale c = false) (ends : endsWord r = true) :
    ∃ l' : Layout, Reads l l' ∧ l'.Behind r false column (around indent column outer)
      (ts ++ opened indent column ++ [.key, word, .value]) := by
  have approached : l.approach = .ok l := by
    have kept : l.dropStale = .ok { l with candidates := [(0, c)] } := by
      rw [dropStale_eq (by simp [pending.candidates, fresh])]
      simp [pending.candidates, fresh]
    have approached := pending.approach_eq deep kept
    rwa [← pending.candidates] at approached
  have found : l.candidate? = some c := by
    rw [candidate?, pending.candidates, pending.depth]
    rfl
  have turned : l.turn = l.value.map fun l => (false, l) := pending.turn_eq ends l.candidates
  rw [value_of_candidate found, pending.start, isDeeper_eq pending.depth,
    indentAt_eq pending.depth (pending.indent.trans_le deep)] at turned
  refine ⟨_, ⟨(next_eq approached).trans turned, ?_⟩, ⟨pending.depth, rfl, ?_, ?_, ?_, ?_⟩, ?_, ?_,
    rfl, ?_⟩
  · change (l.place.forward 1).rest.length < _
    rw [pending.rest]
    rw [show (l.place.forward 1).rest = r from Cursor.rest_step pending.rest]
    exact Nat.lt_succ_self _
  · change around l.indent column l.outer = _
    rw [pending.indent, pending.outer]
  · change (Mark.token .value :: l.marks).reverse.flatMap
      (resolve (⟨c.slot, decide (l.indent < column)⟩ :: l.fillings)) = _
    rw [pending.marks_eq, pending.indent]
    have free : Mark.slot c.slot ∉ marks.reverse := fun member =>
      absurd (pending.marked _ (List.mem_reverse.mp member)) (lt_irrefl _)
    have earlier := flatMap_resolve_cons (f := ⟨c.slot, decide (indent < column)⟩) free l.fillings
    simp only [List.reverse_cons, List.flatMap_append, earlier, pending.tokens, List.append_assoc]
    simp only [resolve, List.flatMap_cons, List.flatMap_nil, List.find?_cons, beq_self_eq_true,
      opened]
    by_cases first : indent < column <;> simp [first]
  · exact List.forall_mem_cons.mpr ⟨pending.slots, fun f member =>
      (pending.filled f member).trans pending.slots⟩
  · intro n member
    change Mark.slot n ∈ Mark.token .value :: l.marks at member
    rw [pending.marks_eq] at member
    simp only [List.mem_cons, reduceCtorEq, false_or, Mark.slot.injEq] at member
    rcases member with rfl | earlier
    · exact pending.slots
    · exact (pending.marked n earlier).trans pending.slots
  · exact Cursor.rest_step pending.rest
  · change column < l.place.step.column
    have right := pending.right
    rw [Cursor.column_step pending.rest (.inl colon_isGraphic), if_neg (by decide)]
    omega
  · change (l.candidates.filter fun e => e.1 != l.depth) = []
    rw [pending.candidates, pending.depth]
    rfl

/-- A word that has been left behind is no key, so that its colon is out of place. -/
theorem Pending.next_eq_error (pending : l.Pending r column indent outer ts word c marks)
    (deep : indent ≤ column) (stale : l.isStale c = true) (ends : endsWord r = true) :
    l.next = .error .malformed := by
  -- A key that must come fails at once, and any other leaves a colon that no key may precede.
  cases required : c.required with
  | true =>
    have failed : l.dropStale = .error .malformed :=
      if_pos (by simp [pending.candidates, required, stale])
    rw [next, approach, pending.skip_eq, failed]
    rfl
  | false =>
    have dropped : l.dropStale = .ok { l with candidates := [] } := by
      rw [dropStale_eq (by simp [pending.candidates, required])]
      simp [pending.candidates, stale]
    have misplaced : value { l with candidates := [] } = .error .malformed := by
      have free : candidate? { l with candidates := [] } = none := rfl
      rw [value, free]
      exact if_pos ⟨pending.depth, by simp [pending.keyAllowed]⟩
    rw [next_eq (pending.approach_eq deep dropped), pending.turn_eq ends, misplaced]
    rfl

/-- What has been read before a word that is no key. -/
theorem Pending.tokens_eq (pending : l.Pending r column indent outer ts word c marks) :
    l.tokens = ts ++ [word] := by
  rw [Layout.tokens_eq, pending.marks_eq, ← pending.tokens]
  simp only [List.reverse_cons, List.flatMap_append, List.flatMap_cons, List.flatMap_nil,
    resolve_slot pending.filled, List.append_nil]
  rfl

end Pending

/-- A word with a colon behind it is a key. -/
theorem At.simpleKey (stands : l.At (t ++ ':' :: r) column indent outer ts) (deep : indent ≤ column)
    (written : ScalarText (column + 2) plain s t) (line : '\n' ∉ t) (short : t.length ≤ 1024)
    (ends : endsWord r = true) :
    ∃ l' : Layout, Relation.ReflTransGen Reads l l' ∧
      l'.Behind r false column (around indent column outer)
        (ts ++ opened indent column ++ [.key, .scalar plain (String.ofList s), .value]) := by
  obtain ⟨m, c, marks, first, pending, stale⟩ := stands.word deep written line ends
  obtain ⟨l', second, behind⟩ := pending.colon deep (by simpa [stale] using short) ends
  exact ⟨l', .head first (.single second), behind⟩

/-- A word of more than 1024 characters with a colon behind it is no key. -/
theorem At.longKey (stands : l.At (t ++ ':' :: r) column indent outer ts) (deep : indent ≤ column)
    (written : ScalarText (column + 2) plain s t) (line : '\n' ∉ t) (long : 1024 < t.length)
    (ends : endsWord r = true) :
    ∃ l' : Layout, Reads l l' ∧ l'.next = .error .malformed ∧
      l'.settled = ts ++ [.scalar plain (String.ofList s)] := by
  obtain ⟨l', c, marks, first, pending, stale⟩ := stands.word deep written line ends
  have passed : l'.isStale c = true := by simpa [stale] using long
  have certain : l'.settled = l'.tokens :=
    settled_of_stale (by simpa [pending.candidates] using passed)
  exact ⟨l', first, pending.next_eq_error deep passed ends, certain.trans pending.tokens_eq⟩

/-- The first entry at a column starts a mapping. -/
theorem Idle.start (idle : l.Idle r column indent outer ts) (deep : indent ≤ column) :
    ∃ m : Layout,
      (if l.isDeeper l.place.column then (l.indentAt l.place.column).emit .mappingStart
        else l) = m ∧
      m.Idle r column column (around indent column outer) (ts ++ opened indent column) ∧
      m.place = l.place := by
  rw [idle.column_eq, isDeeper_eq idle.depth, idle.indent]
  by_cases first : indent < column
  · have carries := idle.toCarries.emit .mappingStart
    rw [indentAt_eq idle.depth (idle.indent.trans_le deep), if_pos (by simpa using first), opened,
      if_pos first]
    refine ⟨_, rfl, ⟨⟨idle.depth, rfl, ?_, carries.tokens, carries.filled, carries.marked⟩,
      idle.rest, idle.column_eq, idle.keyAllowed, idle.noCandidates⟩, rfl⟩
    change around l.indent column l.outer = _
    rw [idle.indent, idle.outer]
  · obtain rfl : indent = column := by omega
    rw [if_neg (by simp), opened, around, if_neg first, if_neg first, List.append_nil]
    exact ⟨l, rfl, idle, rfl⟩

/-- A mark with a space or a line end behind it is moved over. -/
theorem Idle.mark {c : Char} (idle : l.Idle (c :: r) column column outer ts) (graphic : IsGraphic c)
    (t : Token) :
    (l.allowKey (l.depth == 0)).dropCandidate = .ok (l.allowKey true) ∧
      (((l.allowKey true).forward 1).emit t).Behind r true column outer (ts ++ [t]) ∧
      (((l.allowKey true).forward 1).emit t).place.column = column + 1 := by
  have column_eq : (l.place.forward 1).column = column + 1 := by
    change l.place.step.column = _
    rw [Cursor.column_step idle.rest (.inl graphic), if_neg graphic.ne_lineFeed, idle.column_eq]
  have free : (l.allowKey (l.depth == 0)).candidate? = none := idle.candidate?_eq
  refine ⟨?_, ⟨((idle.toCarries.allowKey true).moveTo _).emit t, Cursor.rest_step idle.rest, ?_,
    rfl, idle.noCandidates⟩, column_eq⟩
  · rw [dropCandidate, free, idle.depth]
    rfl
  · exact column_eq ▸ Nat.lt_succ_self _

/-- A mark in front of a key. -/
theorem At.markedKey (stands : l.At ('?' :: r) column indent outer ts) (deep : indent ≤ column)
    (ends : endsWord r = true) :
    ∃ l' : Layout, Reads l l' ∧
      l'.Behind r true column (around indent column outer)
        (ts ++ opened indent column ++ [.key]) := by
  obtain ⟨m, approached, idle, shorter⟩ := stands
  rw [unwind_of_le (idle.indent.trans_le deep)] at approached
  obtain ⟨m', started, idle', place⟩ := idle.start deep
  obtain ⟨moved, behind, -⟩ := idle'.mark mark_isGraphic .key
  refine ⟨_, ⟨(next_eq approached).trans ?_, ?_⟩, behind⟩
  · unfold turn
    rw [idle.rest]
    dsimp only
    rw [token_mark ends, key, if_neg (by simp [idle.keyAllowed])]
    simp only [started]
    rw [moved]
    rfl
  · rw [behind.rest]
    exact shorter

/-- The colon on a line of its own. -/
theorem At.markedValue (stands : l.At (':' :: r) column column outer ts)
    (ends : endsWord r = true) :
    ∃ l' : Layout, Reads l l' ∧ l'.Behind r true column outer (ts ++ [.value]) ∧
      l'.place.column = column + 1 := by
  obtain ⟨m, approached, idle, shorter⟩ := stands
  rw [unwind_of_le (Int.le_of_eq idle.indent)] at approached
  obtain ⟨moved, behind, column_eq⟩ := idle.mark colon_isGraphic .value
  refine ⟨_, ⟨(next_eq approached).trans ?_, ?_⟩, behind, column_eq⟩
  · have same : m.isDeeper m.place.column = false := by
      rw [isDeeper_eq idle.depth, idle.indent, idle.column_eq]
      simp
    unfold turn
    rw [idle.rest]
    dsimp only
    rw [token_colon ends, value, idle.candidate?_eq]
    dsimp only
    rw [if_neg (by simp [idle.keyAllowed]), same]
    change Except.map _ (do
      let l ← (m.allowKey (m.depth == 0)).dropCandidate
      .ok ((l.forward 1).emit .value)) = _
    rw [moved]
    rfl
  · rw [behind.rest]
    exact shorter

/-- A key with a mark in front of it, up to the colon on a line of its own. -/
theorem At.marked (stands : l.At
      ('?' :: ' ' :: (t ++ '\n' :: (List.replicate column ' ' ++ ':' :: r))) column indent outer ts)
    (deep : indent ≤ column) (written : ScalarText (column + 2) plain s t)
    (ends : endsWord r = true) :
    ∃ l' : Layout, Relation.ReflTransGen Reads l l' ∧
      l'.Behind r true column (around indent column outer)
        (ts ++ opened indent column ++ [.key, .scalar plain (String.ofList s), .value]) ∧
      l'.place.column = column + 1 := by
  obtain ⟨l₁, first, behind⟩ := stands.markedKey deep rfl
  obtain ⟨l₂, second, stands₂⟩ :=
    behind.scalar written (opens_cons.mpr ⟨colon_isGraphic, by decide⟩) le_rfl
  obtain ⟨l₃, third, behind₃, place⟩ := stands₂.markedValue ends
  refine ⟨l₃, .head first (.head second (.single third)), ?_, place⟩
  simpa using behind₃

end Keys

end Layout

end Yaml

end Quorum
