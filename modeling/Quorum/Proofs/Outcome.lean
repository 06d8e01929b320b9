import Quorum.Fault

/-!
# Operations that succeed

Chains of operations that can fail are taken apart here: a chain succeeds if every operation in it
does, and what a successful chain returned came out of successful operations. Operations that fail
in one way only fail in this way on a list. What answers and failures have in common is carried
through chains as well.

## Main definitions

* `Outcome.Yields` — what is known of the answers and the failures of an operation

## Main results

* `Outcome.bind_eq_ok`, `Outcome.lift_eq_ok` — the parts of a successful operation
* `Outcome.mapM_eq_ok`, `Outcome.exists_of_mapM_eq_ok`, `Outcome.map_of_mapM_eq_ok`,
  `Outcome.exists_of_mem_mapM`, `Outcome.mapM_eq_error` — operations on the members of a list
* `Outcome.Yields.bind`, `Outcome.Yields.mapM` — chains and lists of operations
-/

namespace Quorum

namespace Outcome

variable {ε α β : Type}

@[simp] theorem bind_ok (x : α) (f : α → Except ε β) : (.ok x >>= f) = f x := rfl

@[simp] theorem bind_error (e : ε) (f : α → Except ε β) : (.error e >>= f) = .error e := rfl

@[simp] theorem lift_ok (x : α) : (liftM (.ok x : Except BadValue α) : Outcome α) = .ok x := rfl

@[simp] theorem lift_error (e : BadValue) :
    (liftM (.error e : Except BadValue α) : Outcome α) = .error (.value e) := rfl

/-- A chain succeeds with what its second operation makes of the answer of the first. -/
theorem bind_eq_ok {x : Except ε α} {f : α → Except ε β} {b : β} :
    (x >>= f) = .ok b ↔ ∃ a, x = .ok a ∧ f a = .ok b := by
  cases x <;> simp

/-- What is known to succeed has an answer. -/
theorem exists_of_isOk {x : Except ε α} (isOk : x.isOk = true) : ∃ a, x = .ok a := by
  cases x with
  | ok a => exact ⟨a, rfl⟩
  | error e => cases isOk

/-- A refused value is no success. -/
theorem lift_eq_ok {x : Except BadValue α} {a : α} :
    (liftM x : Outcome α) = .ok a ↔ x = .ok a := by
  cases x <;> simp

/-- An operation that succeeds on every member of a list succeeds on the list. -/
theorem mapM_eq_ok {f : α → Except ε β} {g : α → β} {l : List α}
    (each : ∀ x ∈ l, f x = .ok (g x)) : l.mapM f = .ok (l.map g) := by
  induction l with
  | nil => rfl
  | cons x l ih =>
    rw [List.mapM_cons, each x List.mem_cons_self, bind_ok,
      ih fun y member => each y (List.mem_cons_of_mem x member)]
    rfl

/-- An operation that succeeds on a list succeeds on every member. -/
theorem exists_of_mapM_eq_ok {f : α → Except ε β} {l : List α} {answers : List β}
    (isOk : l.mapM f = .ok answers) : ∀ x ∈ l, ∃ y, f x = .ok y := by
  induction l generalizing answers with
  | nil => simp
  | cons x l ih =>
    rw [List.mapM_cons] at isOk
    obtain ⟨y, first, isOk⟩ := bind_eq_ok.mp isOk
    obtain ⟨rest, later, -⟩ := bind_eq_ok.mp isOk
    exact List.forall_mem_cons.mpr ⟨⟨y, first⟩, ih later⟩

/-- What all answers of an operation say of its arguments, they say of the list. -/
theorem map_of_mapM_eq_ok {γ : Type} {f : α → Except ε β} {l : List α} {answers : List β}
    (isOk : l.mapM f = .ok answers) {g : α → γ} {h : β → γ}
    (same : ∀ x y, f x = .ok y → h y = g x) : answers.map h = l.map g := by
  induction l generalizing answers with
  | nil =>
    cases isOk
    rfl
  | cons x l ih =>
    rw [List.mapM_cons] at isOk
    obtain ⟨y, first, isOk⟩ := bind_eq_ok.mp isOk
    obtain ⟨rest, later, isOk⟩ := bind_eq_ok.mp isOk
    cases isOk
    rw [List.map_cons, List.map_cons, same x y first, ih later]

/-- Every answer of an operation that succeeds on a list is its answer on a member. -/
theorem exists_of_mem_mapM {f : α → Except ε β} {l : List α} {answers : List β}
    (isOk : l.mapM f = .ok answers) : ∀ y ∈ answers, ∃ x ∈ l, f x = .ok y := by
  induction l generalizing answers with
  | nil =>
    cases isOk
    exact List.forall_mem_nil _
  | cons x l ih =>
    rw [List.mapM_cons] at isOk
    obtain ⟨y, first, isOk⟩ := bind_eq_ok.mp isOk
    obtain ⟨rest, later, isOk⟩ := bind_eq_ok.mp isOk
    cases isOk
    refine List.forall_mem_cons.mpr ⟨⟨x, List.mem_cons_self, first⟩, fun z member => ?_⟩
    obtain ⟨w, inner, computed⟩ := ih later z member
    exact ⟨w, List.mem_cons_of_mem x inner, computed⟩

/-- An operation that fails in one way only, and does so on a member of a list, fails on the list in
this way. -/
theorem mapM_eq_error {f : α → Except ε β} {l : List α} {e : ε}
    (each : ∀ x ∈ l, (∃ y, f x = .ok y) ∨ f x = .error e) (failed : ∃ x ∈ l, f x = .error e) :
    l.mapM f = .error e := by
  induction l with
  | nil => simp at failed
  | cons x l ih =>
    obtain ⟨first, rest⟩ := List.forall_mem_cons.mp each
    rw [List.mapM_cons]
    rcases first with ⟨y, first⟩ | first
    · -- The member that fails is one of the others.
      obtain ⟨z, member, failed⟩ := failed
      rcases List.mem_cons.mp member with rfl | member
      · rw [first] at failed
        cases failed
      · rw [first, bind_ok, ih rest ⟨z, member, failed⟩, bind_error]
    · rw [first, bind_error]

/-- An operation gives answers of one kind only, or fails in ways of one kind only. -/
inductive Yields (P : α → Prop) (F : ε → Prop) : Except ε α → Prop
  | ok {a : α} (holds : P a) : Yields P F (.ok a)
  | error {e : ε} (holds : F e) : Yields P F (.error e)

namespace Yields

variable {P P' : α → Prop} {Q : β → Prop} {F F' : ε → Prop} {x : Except ε α}

theorem answer (yields : Yields P F x) {a : α} (isOk : x = .ok a) : P a := by
  subst isOk
  cases yields with
  | ok holds => exact holds

theorem failure (yields : Yields P F x) {e : ε} (failed : x = .error e) : F e := by
  subst failed
  cases yields with
  | error holds => exact holds

theorem mono (yields : Yields P F x) (answers : ∀ a, P a → P' a) (failures : ∀ e, F e → F' e) :
    Yields P' F' x := by
  cases yields with
  | ok holds => exact .ok (answers _ holds)
  | error holds => exact .error (failures _ holds)

theorem weaken (yields : Yields P F x) (failures : ∀ e, F e → F' e) : Yields P F' x :=
  yields.mono (fun _ => id) failures

/-- In a chain the second operation need only be known for answers of the first. -/
theorem bind (yields : Yields P F x) {f : α → Except ε β} (after : ∀ a, P a → Yields Q F (f a)) :
    Yields Q F (x >>= f) := by
  cases yields with
  | ok holds => exact after _ holds
  | error holds => exact .error holds

theorem map (yields : Yields P F x) {f : α → β} (after : ∀ a, P a → Q (f a)) :
    Yields Q F (x.map f) := by
  cases yields with
  | ok holds => exact .ok (after _ holds)
  | error holds => exact .error holds

theorem mapError (yields : Yields P F x) {δ : Type} {f : ε → δ} {G : δ → Prop}
    (failures : ∀ e, F e → G (f e)) : Yields P G (x.mapError f) := by
  cases yields with
  | ok holds => exact .ok holds
  | error holds => exact .error (failures _ holds)

theorem ite {c : Prop} [Decidable c] {y : Except ε α} (holds : c → Yields P F x)
    (fails : ¬c → Yields P F y) : Yields P F (if c then x else y) := by
  split
  · next here => exact holds here
  · next other => exact fails other

theorem mapM {l : List α} {f : α → Except ε β} (each : ∀ x ∈ l, Yields Q F (f x)) :
    Yields (fun ys => ∀ y ∈ ys, Q y) F (l.mapM f) := by
  induction l with
  | nil => exact .ok (List.forall_mem_nil _)
  | cons x l ih =>
    obtain ⟨first, others⟩ := List.forall_mem_cons.mp each
    rw [List.mapM_cons]
    refine first.bind fun y holds => (ih others).bind fun ys all => .ok ?_
    exact List.forall_mem_cons.mpr ⟨holds, all⟩

end Yields

end Outcome

end Quorum
