import Quorum.Proofs.Json.Parser

/-!
# Integers that are read are short

The reader takes integers of at most 4300 characters, a minus sign among them, and leading zeros
only make a number longer, so an integer that was read is written with no more characters. Every
integer of a document that was read is such an integer.

## Main definitions

* `Json.Bounded` — documents whose integers have at most 4300 characters

## Main results

* `Json.length_intText_le` — the length of an integer with a given number of digits
* `Json.Reader.bounded_run` — reading bounded tokens builds bounded documents
* `Json.bounded_of_ofBytes?` — documents that are read are bounded
-/

namespace Quorum

namespace Json

/-! ### Integers -/

theorem digitsValue_lt {ds : List Char} (digits : ∀ c ∈ ds, c.isDigit = true) :
    digitsValue ds < 10 ^ ds.length := by
  induction ds using List.reverseRecOn with
  | nil => exact Nat.one_pos
  | append_singleton ds c ih =>
    rw [List.forall_mem_append, List.forall_mem_singleton] at digits
    have short := ih digits.1
    have digit : c.toNat - 48 < 10 := by
      have nine : '9'.toNat = 57 := rfl
      have isDigit := Char.isDigit_iff_toNat.mp digits.2
      omega
    have value : digitsValue (ds ++ [c]) = 10 * digitsValue ds + (c.toNat - 48) := by
      rw [digitsValue, List.foldl_append]
      rfl
    rw [value, List.length_append, List.length_singleton, pow_succ]
    omega

/-- An integer with at most `k` digits has at most `k` characters besides its sign. -/
theorem length_intText_le (negative : Bool) {n k : ℕ} (positive : 0 < k) (short : n < 10 ^ k) :
    (intText (if negative then -(n : ℤ) else n)).length ≤ k + negative.toNat := by
  have digits : (Nat.toDigits 10 n).length ≤ k :=
    (Nat.length_toDigits_le_iff (by decide) positive).mpr short
  cases negative with
  | false =>
    rw [if_neg Bool.false_ne_true, intText, if_neg (Int.natCast_nonneg n).not_gt,
      Int.natAbs_natCast]
    exact digits
  | true =>
    rw [if_pos rfl, intText, Int.natAbs_neg, Int.natAbs_natCast]
    split
    · exact Nat.succ_le_succ digits
    · exact digits.trans (Nat.le_succ k)

/-- Every integer is its absolute value with a sign. -/
theorem length_intText_le_of_natAbs {n : ℤ} {k : ℕ} (positive : 0 < k) (short : n.natAbs < 10 ^ k) :
    (intText n).length ≤ k + 1 := by
  have signed : n = if decide (n < 0) then -(n.natAbs : ℤ) else n.natAbs := by
    by_cases negative : n < 0
    · rw [if_pos (decide_eq_true negative)]
      omega
    · rw [if_neg (by simpa using negative)]
      omega
  have length := length_intText_le (decide (n < 0)) positive short
  rw [← signed] at length
  have sign := Bool.toNat_le (decide (n < 0))
  omega

/-- Of two numbers that are not negative, the larger one is not shorter. -/
theorem length_intText_mono {m n : ℤ} (nonneg : 0 ≤ m) (le : m ≤ n) :
    (intText m).length ≤ (intText n).length := by
  rw [intText, if_neg nonneg.not_gt, intText, if_neg (nonneg.trans le).not_gt]
  have positive : 0 < (Nat.toDigits 10 n.natAbs).length := Nat.length_toDigits_pos
  have larger : n.natAbs < 10 ^ (Nat.toDigits 10 n.natAbs).length :=
    (Nat.length_toDigits_le_iff (by decide) positive).mp le_rfl
  exact (Nat.length_toDigits_le_iff (by decide) positive).mpr (by omega)

/-! ### Tokens -/

/-- Tokens other than integers of more than 4300 characters. -/
def Token.Bounded : Token → Prop
  | int n => (intText n).length ≤ 4300
  | _ => True

theorem bounded_of_unsigned? {negative : Bool} {s : List Char} {t : Token}
    (read : unsigned? negative s = some t) : t.Bounded := by
  simp only [unsigned?] at read
  split at read
  · cases read
  · next whole =>
    split at read
    · cases read
    · next short =>
      split at read
      · rw [← Option.some.inj read]
        have digits : ∀ c ∈ s.takeWhile Char.isDigit, c.isDigit = true :=
          fun c member => List.mem_takeWhile_imp member
        have positive : 0 < (s.takeWhile Char.isDigit).length := by
          refine List.length_pos_of_ne_nil fun empty => whole ?_
          rw [empty]
          rfl
        have length := length_intText_le negative positive (digitsValue_lt digits)
        exact length.trans (not_lt.mp short)
      · split at read
        · cases read
        · obtain ⟨e, -, rfl⟩ := Option.map_eq_some_iff.mp read
          trivial

theorem bounded_of_number? {s : List Char} {t : Token} (read : number? s = some t) :
    t.Bounded := by
  unfold number? at read
  split at read <;> exact bounded_of_unsigned? read

theorem bounded_of_token? {s r : List Char} {t : Token} (read : token? s = some (t, r)) :
    t.Bounded := by
  unfold token? at read
  split at read
  case h_7 =>
    obtain ⟨⟨text, rest⟩, -, same⟩ := Option.map_eq_some_iff.mp read
    rw [← (Prod.mk.inj same).1]
    trivial
  case h_14 =>
    split at read
    · obtain ⟨number, isNumber, same⟩ := Option.map_eq_some_iff.mp read
      rw [← (Prod.mk.inj same).1]
      exact bounded_of_number? isNumber
    · cases read
  case h_15 => cases read
  all_goals
    rw [← (Prod.mk.inj (Option.some.inj read)).1]
    trivial

theorem bounded_of_lex? {s : List Char} {ts : List Token} (read : lex? s = some ts) :
    ∀ t ∈ ts, t.Bounded := by
  induction s using lex?.induct generalizing ts with
  | case1 s blank =>
    rw [lex?, dif_pos blank] at read
    cases read
    exact List.forall_mem_nil _
  | case2 s more none =>
    rw [lex?, dif_neg more] at read
    split at read
    · cases read
    · simp_all
  | case3 s more t r first ih =>
    rw [lex?, dif_neg more] at read
    split at read
    · cases read
    · next found =>
      rw [first] at found
      cases found
      obtain ⟨ts', rest, rfl⟩ := Option.map_eq_some_iff.mp read
      exact List.forall_mem_cons.mpr ⟨bounded_of_token? first, ih rest⟩

/-! ### Documents -/

/-- Documents whose integers have at most 4300 characters. -/
inductive Bounded : Json → Prop
  | null : Bounded .null
  | bool (b : Bool) : Bounded (.bool b)
  | int {n : ℤ} (short : (intText n).length ≤ 4300) : Bounded (.int n)
  | float (x : Binary64) : Bounded (.float x)
  | str (s : String) : Bounded (.str s)
  | arr {vs : List Json} (items : ∀ v ∈ vs, Bounded v) : Bounded (.arr vs)
  | obj {fs : List (String × Json)} (fields : ∀ f ∈ fs, Bounded f.2) : Bounded (.obj fs)

/-- The value that counts for a name is one of the values. -/
theorem exists_of_lookup? {name : String} {fs : List (String × Json)} {w : Json}
    (found : lookup? name fs = some w) : ∃ f ∈ fs, f.2 = w := by
  induction fs with
  | nil => cases found
  | cons f fs ih =>
    obtain ⟨k, v⟩ := f
    rw [lookup?] at found
    split at found
    · next later =>
      obtain ⟨f, member, same⟩ := ih (later.trans found)
      exact ⟨f, List.mem_cons_of_mem _ member, same⟩
    · split at found
      · exact ⟨(k, v), List.mem_cons_self, Option.some.inj found⟩
      · cases found

theorem Bounded.field? {v w : Json} (bounded : v.Bounded) {name : String}
    (found : v.field? name = some w) : w.Bounded := by
  cases bounded with
  | obj fields =>
    obtain ⟨f, member, rfl⟩ := exists_of_lookup? found
    exact fields f member
  | _ => cases found

/-- What is open so far is bounded. -/
def Frame.Bounded : Frame → Prop
  | items done => ∀ v ∈ done, v.Bounded
  | fields done _ => ∀ f ∈ done, f.2.Bounded

namespace Reader

/-- What has been read so far is bounded. -/
def Bounded : Reader → Prop
  | reading stack _ => ∀ f ∈ stack, f.Bounded
  | complete v => v.Bounded

variable {stack : List Frame} {r r' : Reader} {t : Token}

theorem bounded_put {v : Json} (value : v.Bounded) (stack_bounded : ∀ f ∈ stack, f.Bounded) :
    (put v stack).Bounded := by
  obtain _ | ⟨done | ⟨done, name⟩, stack⟩ := stack
  · exact value
  · obtain ⟨first, others⟩ := List.forall_mem_cons.mp stack_bounded
    exact List.forall_mem_cons.mpr ⟨List.forall_mem_cons.mpr ⟨value, first⟩, others⟩
  · obtain ⟨first, others⟩ := List.forall_mem_cons.mp stack_bounded
    exact List.forall_mem_cons.mpr ⟨List.forall_mem_cons.mpr ⟨value, first⟩, others⟩

theorem bounded_leave {list : Bool} (stack_bounded : ∀ f ∈ stack, f.Bounded)
    (left : leave list stack = some r') : r'.Bounded := by
  obtain _ | ⟨done | ⟨done, name⟩, stack⟩ := stack
  · cases left
  · obtain ⟨first, others⟩ := List.forall_mem_cons.mp stack_bounded
    cases list <;> cases left
    exact bounded_put (.arr fun v member => first v (List.mem_reverse.mp member)) others
  · obtain ⟨first, others⟩ := List.forall_mem_cons.mp stack_bounded
    cases list <;> cases left
    exact bounded_put (.obj fun f member => first f (List.mem_reverse.mp member)) others

theorem bounded_value (token : t.Bounded) (stack_bounded : ∀ f ∈ stack, f.Bounded)
    (started : value stack t = some r') : r'.Bounded := by
  cases t with
  | openArr | openObj =>
    rw [value, enter] at started
    split at started
    · cases started
      exact List.forall_mem_cons.mpr ⟨List.forall_mem_nil _, stack_bounded⟩
    · cases started
  | null =>
    cases started
    exact bounded_put .null stack_bounded
  | bool b =>
    cases started
    exact bounded_put (.bool b) stack_bounded
  | int n =>
    cases started
    exact bounded_put (.int token) stack_bounded
  | float x =>
    cases started
    exact bounded_put (.float x) stack_bounded
  | str s =>
    cases started
    exact bounded_put (.str _) stack_bounded
  | _ => cases started

theorem bounded_name (stack_bounded : ∀ f ∈ stack, f.Bounded)
    (named : name stack t = some r') : r'.Bounded := by
  unfold name at named
  split at named
  · cases named
    obtain ⟨first, others⟩ := List.forall_mem_cons.mp stack_bounded
    exact List.forall_mem_cons.mpr ⟨first, others⟩
  · cases named

theorem bounded_more (stack_bounded : ∀ f ∈ stack, f.Bounded)
    (continued : more stack t = some r') : r'.Bounded := by
  unfold more at continued
  split at continued
  · split at continued <;> cases continued <;> exact stack_bounded
  · exact bounded_leave stack_bounded continued
  · exact bounded_leave stack_bounded continued
  · cases continued

/-- One token keeps what has been read bounded. -/
theorem bounded_step (token : t.Bounded) (bounded : r.Bounded) (stepped : r.step t = some r') :
    r'.Bounded := by
  unfold step at stepped
  split at stepped
  · cases stepped
  · exact bounded_value token bounded stepped
  · split at stepped
    · exact bounded_leave bounded stepped
    · exact bounded_value token bounded stepped
  · split at stepped
    · exact bounded_leave bounded stepped
    · exact bounded_name bounded stepped
  · exact bounded_name bounded stepped
  · split at stepped
    · cases stepped
      exact bounded
    · cases stepped
  · exact bounded_more bounded stepped

/-- Reading bounded tokens keeps what has been read bounded. -/
theorem bounded_run {ts : List Token} (tokens : ∀ t ∈ ts, t.Bounded) (bounded : r.Bounded)
    (read : r.run ts = some r') : r'.Bounded := by
  induction ts generalizing r with
  | nil =>
    cases read
    exact bounded
  | cons t ts ih =>
    obtain ⟨first, others⟩ := List.forall_mem_cons.mp tokens
    rw [run] at read
    split at read
    · next stepped => exact ih others (bounded_step first bounded stepped) read
    · cases read

end Reader

/-- Documents that are read are bounded. -/
theorem bounded_of_ofBytes? {b : Bytes} {v : Json} (read : ofBytes? b = some v) : v.Bounded := by
  obtain ⟨s, -, read⟩ := Option.bind_eq_some_iff.mp read
  obtain ⟨ts, lexed, read⟩ := Option.bind_eq_some_iff.mp read
  obtain ⟨r, run, complete⟩ := Option.bind_eq_some_iff.mp read
  have start : (Reader.reading [] .value).Bounded := List.forall_mem_nil _
  have bounded := Reader.bounded_run (bounded_of_lex? lexed) start run
  cases r with
  | reading stack expect => cases complete
  | complete w =>
    cases complete
    exact bounded

end Json

end Quorum
