import Mathlib.Order.Basic
import Mathlib.Order.Nat
import Quorum.Proofs.Binary64
import Quorum.Proofs.Society.Roster
import Quorum.Proofs.Society.Schedule

/-!
# A request in time

The local transport lets the requests of a run advance from instant to instant. Whatever latency,
detours and deadline there are, this takes the steps of the run in one of the orders that they
allow.

## Main definitions

* `Run.Reaches` — a state that some steps lead to
* `Run.Awaits` — a request that is out between two instants
* `LocalTransport.Stops` — a run that has come to its stop
* `LocalTransport.Answers` — an actor answers before the deadline

## Main results

* `LocalTransport.reaches_advance` — the steps of an instant
* `LocalTransport.stops_pass` — the steps until nothing is waited for or the deadline strikes
* `Coordinator.reaches_request` — a request takes the steps of a run
* `Coordinator.time_ne_none` — a request ends before its deadline when its actors answer
-/

namespace Quorum

/-- Without repetitions a sorted list increases. -/
theorem pairwise_lt_eraseDups :
    ∀ {l : List ℕ}, l.Pairwise (· ≤ ·) → l.eraseDups.Pairwise (· < ·)
  | [], _ => .nil
  | a :: l, sorted => by
    obtain ⟨least, sorted⟩ := List.pairwise_cons.mp sorted
    have shorter : (l.filter fun b => !b == a).length < l.length + 1 :=
      Nat.lt_succ_of_le (List.length_filter_le ..)
    rw [List.eraseDups_cons, List.pairwise_cons]
    constructor
    · intro b member
      rw [List.mem_eraseDups, List.mem_filter] at member
      have ne : b ≠ a := by simpa using member.2
      exact lt_of_le_of_ne (least b member.1) ne.symm
    · exact pairwise_lt_eraseDups (sorted.filter _)
termination_by l => l.length

namespace LocalTransport

variable {t : LocalTransport} {actors actors' : Table ℤ Actor}

theorem obstacle?_congr (same : ∀ i, actors'.contains i = actors.contains i) (id : ℤ) :
    t.obstacle? actors' id = t.obstacle? actors id := by
  rw [obstacle?, obstacle?, same]

theorem settleTime?_congr (same : ∀ i, actors'.contains i = actors.contains i) (id : ℤ) :
    t.settleTime? actors' id = t.settleTime? actors id := by
  rw [settleTime?, settleTime?, obstacle?_congr same]

/-- A request is settled when its actor is contacted or later. -/
theorem contactTime_le_of_settleTime? {id : ℤ} {due : ℕ}
    (settles : t.settleTime? actors id = some due) : t.contactTime id ≤ due := by
  rw [settleTime?] at settles
  split at settles
  · exact (Option.some.inj settles).le
  · split at settles
    · cases settles
    · exact (Nat.le_add_right ..).trans (Option.some.inj settles).le

theorem settleTime?_of_blocked {id : ℤ} {f : Fault} (blocked : t.obstacle? actors id = some f) :
    t.settleTime? actors id = some (t.contactTime id) := by
  rw [settleTime?, blocked]
  rfl

theorem not_mem_unreachable {id : ℤ} {due : ℕ} (reached : t.obstacle? actors id = none)
    (settles : t.settleTime? actors id = some due) : id ∉ t.unreachable := by
  rw [settleTime?, reached] at settles
  intro member
  simp [member] at settles

end LocalTransport

namespace Run

variable {t : LocalTransport} {actors actors' actors'' : Table ℤ Actor} {x x' x'' : Run}
  {acts acts' : List Act} {p : ℕ} {id : ℤ}

theorem Steps.trans (first : Steps t actors x acts actors' x')
    (second : Steps t actors' x' acts' actors'' x'') :
    Steps t actors x (acts ++ acts') actors'' x'' := by
  induction second with
  | refl => rwa [List.append_nil]
  | snoc before step ih =>
    rw [← List.append_assoc]
    exact ih.snoc step

/-- Some steps of a run lead to a state. -/
def Reaches (t : LocalTransport) (actors : Table ℤ Actor) (x : Run) (actors' : Table ℤ Actor)
    (x' : Run) : Prop :=
  ∃ acts, Steps t actors x acts actors' x'

theorem Reaches.refl : Reaches t actors x actors x := ⟨[], .refl⟩

theorem Reaches.trans (first : Reaches t actors x actors' x')
    (second : Reaches t actors' x' actors'' x'') : Reaches t actors x actors'' x'' := by
  obtain ⟨acts, first⟩ := first
  obtain ⟨acts', second⟩ := second
  exact ⟨acts ++ acts', first.trans second⟩

theorem Reaches.step {act : Act} (before : Reaches t actors x actors' x')
    (step : Step t actors' x' act actors'' x'') : Reaches t actors x actors'' x'' := by
  obtain ⟨acts, steps⟩ := before
  exact ⟨acts ++ [act], steps.snoc step⟩

theorem put_put (x : Run) (p : ℕ) (first second : Progress) :
    (x.put p first).put p second = x.put p second := by
  rw [put, put, put, Function.update_idem]

/-- A run that has stopped empties the slots that are left. -/
theorem reaches_cleared {result : Outcome Gathering} {left : List ℤ}
    (clearing : x.stage = .clearing result left) : Reaches t actors x
      (Coordinator.clear x.request actors left) { x with stage := .clearing result [] } := by
  induction left generalizing actors x with
  | nil =>
    rw [← clearing]
    exact .refl
  | cons id left ih =>
    have first : Reaches t actors x (Coordinator.clear x.request actors [id])
        { x with stage := .clearing result left } := Reaches.refl.step (.discard clearing)
    exact first.trans (ih rfl)

/-- The request at a position is out, and everything that is still to happen to it happens at the
given instants. -/
structure Awaits (t : LocalTransport) (actors : Table ℤ Actor) (instants : List ℕ) (x : Run)
    (p : ℕ) (id : ℤ) : Prop where
  asked : x.asked[p]? = some id
  due : ∀ due, t.settleTime? actors id = some due → due ∈ instants
  /-- The actor is still to be contacted, or it has been and will answer. -/
  stands : t.contactTime id ∈ instants ∧ x.progress p = .sent ∨
    t.contactTime id ∉ instants ∧ t.obstacle? actors id = none ∧ x.progress p = .arrived

theorem Awaits.congr {instants : List ℕ} (awaits : x.Awaits t actors instants p id)
    (same : ∀ i, actors'.contains i = actors.contains i) (asked : x'.asked = x.asked)
    (progress : x'.progress p = x.progress p) : x'.Awaits t actors' instants p id where
  asked := asked ▸ awaits.asked
  due := fun due settles =>
    awaits.due due ((LocalTransport.settleTime?_congr same id).symm.trans settles)
  stands := by
    rw [progress, LocalTransport.obstacle?_congr same]
    exact awaits.stands

end Run

namespace LocalTransport

open Run

variable {t : LocalTransport} {actors : Table ℤ Actor} {x : Run} {now : ℕ} {rest : List ℕ}

/-- The actors after the instant at which one of them may be contacted. -/
def contacted (t : LocalTransport) (actors : Table ℤ Actor) (request : String) (c : Ciphertext)
    (now : ℕ) (id : ℤ) : Table ℤ Actor :=
  if t.contactTime id = now ∧ t.obstacle? actors id = none then contact actors id request c
  else actors

theorem contains_contacted (actors : Table ℤ Actor) (request : String) (c : Ciphertext) (id i : ℤ) :
    (t.contacted actors request c now id).contains i = actors.contains i := by
  rw [contacted]
  split
  · exact contains_of_roster_eq (roster_contact ..) i
  · rfl

section Entry

variable {p : ℕ} {id : ℤ} (sorted : (now :: rest).Pairwise (· < ·))
  (gathering : x.stage = .gathering) (awaits : x.Awaits t actors (now :: rest) p id)

include sorted gathering awaits

/-- A request that is settled at an instant. -/
theorem reaches_settled (settles : t.settleTime? actors id = some now) :
    let contacted := t.contacted actors x.request x.gathering.ciphertext now id
    let answered := t.answer contacted id x.request
    Reaches t actors x answered.2 (x.put p (.settled answered.1)) := by
  intro contacted answered
  have early := contactTime_le_of_settleTime? settles
  obtain ⟨later, -⟩ := List.pairwise_cons.mp sorted
  -- The actor is contacted now if it has not been before.
  have notLater : t.contactTime id ∉ rest := fun member => (later _ member).not_ge early
  cases blocked : t.obstacle? actors id with
  | some f =>
    have same : contacted = actors := if_neg (by simp [blocked])
    have answered_eq : answered = (.error f, actors) := by
      simp only [answered, same, answer, blocked]
    rcases awaits.stands with ⟨-, sent⟩ | ⟨-, reached, -⟩
    · rw [answered_eq]
      exact Reaches.refl.step (.fail gathering awaits.asked sent blocked)
    · rw [blocked] at reached
      cases reached
  | none =>
    have answers := not_mem_unreachable blocked settles
    rcases awaits.stands with ⟨member, sent⟩ | ⟨passed, -, arrived⟩
    · have timely : t.contactTime id = now := (List.mem_cons.mp member).resolve_right notLater
      have same : contacted = contact actors id x.request x.gathering.ciphertext :=
        if_pos ⟨timely, blocked⟩
      have first : Reaches t actors x _ (x.put p .arrived) :=
        Reaches.refl.step (.contact gathering awaits.asked sent blocked)
      rw [← same] at first
      have second := first.step (.answer (p := p) awaits.asked (progress_put_self ..) answers)
      rwa [put_put] at second
    · have same : contacted = actors := by
        refine if_neg fun both => passed ?_
        rw [both.1]
        exact List.mem_cons_self
      have answered_eq : answered = t.answer actors id x.request := by
        simp only [answered, same]
      rw [answered_eq]
      exact Reaches.refl.step (.answer awaits.asked arrived answers)

/-- A request that stays out at an instant. -/
theorem reaches_unsettled (quiet : t.settleTime? actors id ≠ some now) :
    let contacted := t.contacted actors x.request x.gathering.ciphertext now id
    ∃ progress, Reaches t actors x contacted (x.put p progress) ∧
      (x.put p progress).Awaits t contacted rest p id := by
  intro contacted
  have same (i : ℤ) : contacted.contains i = actors.contains i := contains_contacted ..
  have due (due : ℕ) (settles : t.settleTime? contacted id = some due) : due ∈ rest := by
    rw [settleTime?_congr same] at settles
    refine (List.mem_cons.mp (awaits.due due settles)).resolve_left fun now_eq => quiet ?_
    rw [settles, now_eq]
  obtain ⟨later, -⟩ := List.pairwise_cons.mp sorted
  have unchanged : x.put p (x.progress p) = x := by
    rw [put, Function.update_eq_self]
  by_cases timely : t.contactTime id = now
  · -- An actor that cannot be contacted would be settled now.
    have reached : t.obstacle? actors id = none := by
      cases blocked : t.obstacle? actors id with
      | none => rfl
      | some f => exact absurd (timely ▸ settleTime?_of_blocked blocked) quiet
    rcases awaits.stands with ⟨-, sent⟩ | ⟨passed, -⟩
    · have contacted_eq : contacted = contact actors id x.request x.gathering.ciphertext :=
        if_pos ⟨timely, reached⟩
      refine ⟨.arrived, ?_, awaits.asked, due, .inr ⟨?_, ?_, progress_put_self ..⟩⟩
      · rw [contacted_eq]
        exact Reaches.refl.step (.contact gathering awaits.asked sent reached)
      · rw [timely]
        exact fun member => (later now member).false
      · rw [obstacle?_congr same]
        exact reached
    · exact absurd (timely ▸ List.mem_cons_self) passed
  · have contacted_eq : contacted = actors := if_neg fun both => timely both.1
    refine ⟨x.progress p, ?_, awaits.asked, due, ?_⟩
    · rw [contacted_eq, unchanged]
      exact .refl
    · rw [unchanged, obstacle?_congr same]
      refine awaits.stands.imp (fun sent => ⟨?_, sent.2⟩) fun arrived => ⟨?_, arrived.2⟩
      · exact (List.mem_cons.mp sent.1).resolve_left timely
      · exact fun member => arrived.1 (List.mem_cons_of_mem now member)

/-- The first of the requests that are out. -/
theorem reaches_entry :
    let advanced := t.advance x.request x.gathering.ciphertext now actors [(p, id)]
    ∃ progress, Reaches t actors x advanced.2 (x.put p progress) ∧
      (∀ i, advanced.2.contains i = actors.contains i) ∧
      ((∃ reply, advanced.1 = [⟨p, reply⟩] ∧ progress = .settled reply) ∨
        advanced.1 = [] ∧ (x.put p progress).Awaits t advanced.2 rest p id) := by
  have kept (i : ℤ) : (t.contacted actors x.request x.gathering.ciphertext now id).contains i =
      actors.contains i := contains_contacted ..
  by_cases settles : t.settleTime? actors id = some now
  · have advanced : t.advance x.request x.gathering.ciphertext now actors [(p, id)] =
        ([⟨p, (t.answer (t.contacted actors x.request x.gathering.ciphertext now id) id
          x.request).1⟩],
        (t.answer (t.contacted actors x.request x.gathering.ciphertext now id) id
          x.request).2) := by
      rw [advance, if_pos settles]
      rfl
    rw [advanced]
    exact ⟨_, reaches_settled sorted gathering awaits settles,
      fun i => (contains_of_roster_eq (roster_answer ..) i).trans (kept i), .inl ⟨_, rfl, rfl⟩⟩
  · have advanced : t.advance x.request x.gathering.ciphertext now actors [(p, id)] =
        ([], t.contacted actors x.request x.gathering.ciphertext now id) := by
      rw [advance, if_neg settles]
      rfl
    rw [advanced]
    obtain ⟨progress, reaches, out⟩ := reaches_unsettled sorted gathering awaits settles
    exact ⟨progress, reaches, kept, .inr ⟨rfl, out⟩⟩

end Entry

theorem advance_cons (t : LocalTransport) (request : String) (c : Ciphertext) (now : ℕ)
    (actors : Table ℤ Actor) (e : ℕ × ℤ) (waiting : List (ℕ × ℤ)) :
    let first := t.advance request c now actors [e]
    let later := t.advance request c now first.2 waiting
    t.advance request c now actors (e :: waiting) = (first.1 ++ later.1, later.2) := by
  obtain ⟨p, id⟩ := e
  by_cases settles : t.settleTime? actors id = some now
  · simp only [advance, if_pos settles, List.cons_append, List.nil_append]
  · simp only [advance, if_neg settles, List.nil_append]

/-- The steps of an instant: the requests that are due are settled, and the others stay out. -/
theorem reaches_advance (sorted : (now :: rest).Pairwise (· < ·)) {waiting : List (ℕ × ℤ)}
    (distinct : (waiting.map Prod.fst).Nodup) (gathering : x.stage = .gathering)
    (awaits : ∀ e ∈ waiting, x.Awaits t actors (now :: rest) e.1 e.2) :
    let advanced := t.advance x.request x.gathering.ciphertext now actors waiting
    ∃ x', Reaches t actors x advanced.2 x' ∧ x'.gathering = x.gathering ∧ x'.stage = .gathering ∧
      (∀ i, advanced.2.contains i = actors.contains i) ∧
      (∀ p ∉ waiting.map Prod.fst, x'.progress p = x.progress p) ∧
      (advanced.1.map Settled.position).Sublist (waiting.map Prod.fst) ∧
      (∀ s ∈ advanced.1, x'.progress s.position = .settled s.reply) ∧
      ∀ e ∈ waiting, (∀ s ∈ advanced.1, s.position ≠ e.1) →
        x'.Awaits t advanced.2 rest e.1 e.2 := by
  induction waiting generalizing actors x with
  | nil =>
    exact ⟨x, .refl, rfl, gathering, fun _ => rfl, fun _ _ => rfl, .slnil,
      List.forall_mem_nil _, List.forall_mem_nil _⟩
  | cons e waiting ih =>
    obtain ⟨p, id⟩ := e
    obtain ⟨fresh, distinct⟩ := List.nodup_cons.mp distinct
    obtain ⟨head, tail⟩ := List.forall_mem_cons.mp awaits
    obtain ⟨progress, reaches, same, first⟩ := reaches_entry sorted gathering head
    rw [advance_cons]
    generalize t.advance x.request x.gathering.ciphertext now actors [(p, id)] = entry
      at reaches same first ⊢
    -- What the first request does leaves the others where they are.
    have others (e : ℕ × ℤ) (member : e ∈ waiting) :
        (x.put p progress).Awaits t entry.2 (now :: rest) e.1 e.2 := by
      refine (tail e member).congr same rfl (progress_put_of_ne fun same => fresh ?_)
      exact List.mem_map.mpr ⟨e, member, same⟩
    obtain ⟨x', later, gathering_eq, gathering', same', elsewhere, sublist, settled, out⟩ :=
      ih (x := x.put p progress) distinct gathering others
    have progress_eq : x'.progress p = progress :=
      (elsewhere p fresh).trans (progress_put_self ..)
    refine ⟨x', reaches.trans later, gathering_eq, gathering', fun i => (same' i).trans (same i),
      fun q outside => ?_, ?_, ?_, ?_⟩
    · rw [List.map_cons, List.mem_cons, not_or] at outside
      exact (elsewhere q outside.2).trans (progress_put_of_ne outside.1)
    · rw [List.map_append, List.map_cons]
      rcases first with ⟨reply, only, -⟩ | ⟨none, -⟩
      · rw [only]
        exact sublist.cons_cons p
      · rw [none]
        exact sublist.cons p
    · rw [List.forall_mem_append]
      refine ⟨fun s member => ?_, settled⟩
      rcases first with ⟨reply, only, settles⟩ | ⟨none, -⟩
      · rw [only, List.mem_singleton] at member
        rw [member, progress_eq, settles]
      · rw [none] at member
        cases member
    · rw [List.forall_mem_cons]
      constructor
      · intro unsettled
        rcases first with ⟨reply, only, -⟩ | ⟨-, awaits⟩
        · refine absurd rfl (unsettled ⟨p, reply⟩ (List.mem_append_left _ ?_))
          rw [only]
          exact List.mem_singleton_self _
        · refine awaits.congr same' (congrArg Gathering.asked gathering_eq) ?_
          rw [progress_eq, progress_put_self]
      · intro e member unsettled
        exact out e member fun s settled => unsettled s (List.mem_append_right _ settled)

section Pass

variable (timeout : Binary64) (first : Bool)

/-- A run that stops with what it has gathered. -/
theorem reaches_stop (gathering : x.stage = .gathering) :
    Reaches t actors x actors (x.close (.ok x.gathering)) :=
  Reaches.refl.step (.stop gathering)

theorem mem_entries_iff {g : Gathering} {e : ℕ × ℤ} :
    e ∈ (g.out.filterMap fun i => g.asked[i]?.map fun id => (i, id)) ↔
      e.1 ∈ g.out ∧ g.asked[e.1]? = some e.2 := by
  obtain ⟨p, id⟩ := e
  simp only [List.mem_filterMap, Option.map_eq_some_iff, Prod.mk.injEq]
  constructor
  · rintro ⟨i, out, id', asked, rfl, rfl⟩
    exact ⟨out, asked⟩
  · rintro ⟨out, asked⟩
    exact ⟨p, out, id, asked, rfl, rfl⟩

theorem positions_sublist (asked : List ℤ) (out : List ℕ) :
    ((out.filterMap fun i => asked[i]?.map fun id => (i, id)).map Prod.fst).Sublist out := by
  induction out with
  | nil => exact .slnil
  | cons p out ih =>
    rw [List.filterMap_cons]
    cases asked[p]? with
    | none => exact ih.cons p
    | some id => exact ih.cons_cons p

/-- The steps of an instant for all requests that are out. -/
theorem reaches_instant (sorted : (now :: rest).Pairwise (· < ·)) (gathering : x.stage = .gathering)
    (distinct : x.gathering.out.Nodup)
    (awaits : ∀ p ∈ x.gathering.out, ∃ id, x.Awaits t actors (now :: rest) p id) :
    let g := x.gathering
    let advanced := t.advance g.meeting.request g.ciphertext now actors
      (g.out.filterMap fun i => g.asked[i]?.map fun id => (i, id))
    ∃ x', Reaches t actors x advanced.2 x' ∧ x'.gathering = g ∧ x'.stage = .gathering ∧
      (∀ i, advanced.2.contains i = actors.contains i) ∧
      (advanced.1.map Settled.position).Sublist g.out ∧
      (∀ s ∈ advanced.1, x'.progress s.position = .settled s.reply) ∧
      ∀ p ∈ g.out, (∀ s ∈ advanced.1, s.position ≠ p) →
        ∃ id, x'.Awaits t advanced.2 rest p id := by
  intro g advanced
  obtain ⟨x', reaches, same_gathering, gathering', same, -, sublist, settled, out⟩ :=
    reaches_advance sorted (distinct.sublist (positions_sublist g.asked g.out)) gathering
      fun e member => by
        obtain ⟨stillOut, asked⟩ := mem_entries_iff.mp member
        obtain ⟨id, awaits⟩ := awaits e.1 stillOut
        obtain rfl := Option.some.inj (awaits.asked.symm.trans asked)
        exact awaits
  refine ⟨x', reaches, same_gathering, gathering', same, sublist.trans (positions_sublist ..),
    settled, fun p member unsettled => ?_⟩
  obtain ⟨id, awaits⟩ := awaits p member
  exact ⟨id, out (p, id) (mem_entries_iff.mpr ⟨member, awaits.asked⟩) unsettled⟩

/-- A run has come to its stop: it has stopped before the deadline only when there is nothing left
to wait for, and it does so if everything happens before the deadline. -/
structure Stops (t : LocalTransport) (timeout : Binary64) (instants : List ℕ)
    (actors : Table ℤ Actor) (x : Run) (ending : Ending) : Prop where
  reaches : ∃ x', Reaches t actors x ending.actors x' ∧
    x'.stage = .clearing ending.result x.asked ∧ x'.request = x.request
  done : ending.time ≠ none → ∀ g, ending.result = .ok g → g.isDone = true
  timely : (∀ now ∈ instants, Binary64.lt (seconds now) timeout = true) →
    (∀ id ∈ x.asked, t.settleTime? actors id ≠ none) → ending.time ≠ none

/-- A run that comes to its stop later comes to its stop. -/
theorem Stops.after {actors' : Table ℤ Actor} {x' : Run} {ending : Ending}
    (later : Stops t timeout rest actors' x' ending) (before : Reaches t actors x actors' x')
    (same : ∀ i, actors'.contains i = actors.contains i) (asked : x'.asked = x.asked)
    (request : x'.request = x.request) : Stops t timeout (now :: rest) actors x ending where
  reaches := by
    obtain ⟨x'', last, stage, request'⟩ := later.reaches
    exact ⟨x'', before.trans last, asked ▸ stage, request'.trans request⟩
  done := later.done
  timely := fun timely settles => by
    refine later.timely (fun now' member => timely now' (.tail now member)) fun id member => ?_
    rw [settleTime?_congr same]
    exact settles id (asked ▸ member)

/-- A run that has stopped at an instant has not waited for the deadline. -/
theorem stops_now {instants : List ℕ} {actors' : Table ℤ Actor} {x' : Run}
    {result : Outcome Gathering} (reaches : Reaches t actors x actors' x')
    (stage : x'.stage = .clearing result x.asked) (request : x'.request = x.request)
    (done : ∀ g, result = .ok g → g.isDone = true) (now : ℕ) :
    Stops t timeout instants actors x ⟨result, actors', some now⟩ where
  reaches := ⟨x', reaches, stage, request⟩
  done := fun _ => done
  timely := fun _ _ => Option.some_ne_none now

/-- A run for which nothing happens any more waits for something that is never settled. -/
theorem stops_nil (gathering : x.stage = .gathering) (waiting : x.gathering.isDone = false)
    (awaits : ∀ p ∈ x.gathering.out, ∃ id, x.Awaits t actors [] p id) :
    Stops t timeout [] actors x ⟨.ok x.gathering, actors, none⟩ where
  reaches := ⟨_, reaches_stop gathering, rfl, rfl⟩
  done := fun early => absurd rfl early
  timely := by
    intro _ settles
    obtain ⟨p, out⟩ : ∃ p, p ∈ x.gathering.out := by
      refine List.exists_mem_of_ne_nil _ fun none => ?_
      rw [Gathering.isDone, none] at waiting
      cases waiting
    obtain ⟨id, awaits⟩ := awaits p out
    obtain ⟨due, settled⟩ :=
      Option.ne_none_iff_exists'.mp (settles id (List.mem_of_getElem? awaits.asked))
    exact absurd (awaits.due due settled) List.not_mem_nil

/-- A run that the deadline ends has an instant that does not precede the deadline. -/
theorem stops_late (gathering : x.stage = .gathering)
    (late : (!inTime timeout first now) = true) :
    Stops t timeout (now :: rest) actors x ⟨.ok x.gathering, actors, none⟩ where
  reaches := ⟨_, reaches_stop gathering, rfl, rfl⟩
  done := fun early => absurd rfl early
  timely := by
    intro timely
    have early := timely now List.mem_cons_self
    simp [inTime, early] at late

/-- What is out after a batch has been counted is still awaited. -/
theorem awaits_of_absorb {batch : List Settled} {g : Gathering}
    (absorbed : x.gathering.absorb batch = .ok g)
    (out : ∀ p ∈ x.gathering.out, (∀ s ∈ batch, s.position ≠ p) →
      ∃ id, x.Awaits t actors rest p id) :
    ∀ p ∈ g.out, ∃ id, Run.Awaits t actors rest { x with gathering := g } p id := by
  obtain ⟨-, -, asked, out_eq⟩ := Gathering.same_of_absorb absorbed
  intro p member
  rw [out_eq, List.mem_filter] at member
  obtain ⟨id, awaits⟩ := out p member.1 fun s settled same => by
    have unsettled := member.2
    simp only [Bool.not_eq_true', List.any_eq_false] at unsettled
    exact unsettled s settled (by simpa using same)
  exact ⟨id, awaits.congr (fun _ => rfl) asked rfl⟩

/-- Letting time pass takes a run to its stop. -/
theorem stops_pass {instants : List ℕ} (sorted : instants.Pairwise (· < ·))
    (gathering : x.stage = .gathering) (waiting : x.gathering.isDone = false)
    (distinct : x.gathering.out.Nodup)
    (awaits : ∀ p ∈ x.gathering.out, ∃ id, x.Awaits t actors instants p id) :
    Stops t timeout instants actors x (t.pass timeout first ⟨x.gathering, actors⟩ instants) := by
  induction instants generalizing actors x first with
  | nil => exact stops_nil timeout gathering waiting awaits
  | cons now rest ih =>
    rw [pass]
    by_cases late : (!inTime timeout first now) = true
    · rw [if_pos late]
      exact stops_late timeout first gathering late
    · rw [if_neg late]
      obtain ⟨x', reaches, same_gathering, gathering', same, sublist, settled, out⟩ :=
        reaches_instant sorted gathering distinct awaits
      dsimp only at reaches same sublist settled out ⊢
      generalize t.advance _ _ _ _ _ = advanced at reaches same sublist settled out ⊢
      obtain ⟨batch, actors'⟩ := advanced
      dsimp only at reaches same sublist settled out ⊢
      rw [← same_gathering] at waiting distinct sublist out ⊢
      have asked : x'.asked = x.asked := congrArg Gathering.asked same_gathering
      have request : x'.request = x.request :=
        congrArg (fun g : Gathering => g.meeting.request) same_gathering
      by_cases quiet : batch.isEmpty = true
      · rw [if_pos quiet]
        obtain rfl := List.isEmpty_iff.mp quiet
        have later := ih first sorted.tail gathering' waiting distinct
          fun p member => out p member (List.forall_mem_nil _)
        exact later.after timeout reaches same asked request
      · rw [if_neg quiet]
        have taken : ∀ s ∈ batch, s.position ∈ x'.gathering.out ∧
            x'.progress s.position = .settled s.reply := fun s member =>
          ⟨sublist.subset (List.mem_map_of_mem member), settled s member⟩
        have apart : (batch.map Settled.position).Nodup := distinct.sublist sublist
        cases absorbed : x'.gathering.absorb batch with
        | error f =>
          have step := reaches.step (.fault gathering' waiting taken apart absorbed)
          refine stops_now timeout step (congrArg _ asked) request ?_ now
          intro g isOk
          cases isOk
        | ok g =>
          have step := reaches.step (.take gathering' waiting taken apart absorbed)
          obtain ⟨request', -, asked', out'⟩ := Gathering.same_of_absorb absorbed
          dsimp only
          by_cases done : g.isDone = true
          · rw [if_pos done]
            refine stops_now timeout (step.trans (reaches_stop gathering'))
              (congrArg _ (asked'.trans asked)) (request'.trans request) ?_ now
            intro g' isOk
            cases isOk
            exact done
          · rw [if_neg done]
            have distinct' : g.out.Nodup := out' ▸ distinct.filter _
            have later := ih (x := { x' with gathering := g }) false sorted.tail gathering'
              (by simpa using done) distinct' (awaits_of_absorb absorbed out)
            exact later.after timeout step same (asked'.trans asked) (request'.trans request)

end Pass

theorem mem_instants_iff {asked : List ℤ} {time : ℕ} : time ∈ t.instants actors asked ↔
    ∃ id ∈ asked, time = t.contactTime id ∨ t.settleTime? actors id = some time := by
  simp only [instants, List.mem_eraseDups, List.mem_mergeSort, List.mem_flatMap, List.mem_cons,
    Option.mem_toList]

/-- What happens before an instant that precedes the deadline precedes the deadline. -/
theorem lt_seconds_of_le {limit : Binary64} {time due : ℕ} (le : time ≤ due)
    (early : Binary64.lt (seconds due) limit = true) :
    Binary64.lt (seconds time) limit = true :=
  Binary64.lt_of_ofRatio_le le (by decide) early

/-- The requests to an actor meet nothing but delays, and its answers are due before the
deadline. -/
structure Answers (t : LocalTransport) (limit : Binary64) (id : ℤ) : Prop extends t.Direct id where
  reachable : id ∉ t.unreachable
  early : Binary64.lt (seconds (t.contactTime id + t.latency)) limit = true

/-- A request to an actor that answers before the deadline is settled before the deadline. -/
theorem Answers.settles {limit : Binary64} {id : ℤ} (answers : t.Answers limit id)
    (actors : Table ℤ Actor) : ∃ due, t.settleTime? actors id = some due ∧
      Binary64.lt (seconds due) limit = true := by
  cases reached : t.obstacle? actors id with
  | some f =>
    refine ⟨_, settleTime?_of_blocked reached, ?_⟩
    exact lt_seconds_of_le (Nat.le_add_right ..) answers.early
  | none =>
    have reachable : t.unreachable.contains id = false := by simpa using answers.reachable
    refine ⟨_, ?_, answers.early⟩
    rw [settleTime?, reached, reachable]
    rfl

theorem sorted_instants (t : LocalTransport) (actors : Table ℤ Actor) (asked : List ℤ) :
    (t.instants actors asked).Pairwise (· < ·) := by
  refine pairwise_lt_eraseDups ?_
  have sorted : (List.mergeSort (asked.flatMap fun id =>
      t.contactTime id :: (t.settleTime? actors id).toList) fun i j => decide (i ≤ j)).Pairwise
        fun i j => decide (i ≤ j) = true := by
    refine List.pairwise_mergeSort (fun a b c ab bc => ?_) (fun a b => ?_) _
    · simp only [decide_eq_true_eq] at ab bc ⊢
      exact ab.trans bc
    · simpa using Nat.le_total a b
  simpa using sorted

end LocalTransport

/-- A request over the local transport takes the steps of a run, from its start to its end. It ends
before its deadline only when there is nothing left to wait for, and it does so if everything
happens before the deadline. -/
theorem Coordinator.reaches_request (k : Coordinator) (request : String) (c : Ciphertext)
    (ids : Option (List ℤ)) (timeout : Option Binary64) :
    let asked := ids.getD (k.select none)
    let limit := timeout.getD k.config.timeout
    let ending := k.request request c ids timeout
    ∃ x result, Run.Reaches k.transport k.actors
        (.start (.start c asked (k.openMeeting request))) ending.2.1.actors x ∧
      x.stage = .clearing result [] ∧
      ending.1 = result.bind (fun g : Gathering => g.conclude limit) ∧
      (ending.2.2 ≠ none → ∀ g, result = .ok g → g.isDone = true) ∧
      ((∀ id ∈ asked, ∃ due, k.transport.settleTime? k.actors id = some due ∧
          Binary64.lt (LocalTransport.seconds due) limit = true) → ending.2.2 ≠ none) := by
  intro asked limit ending
  let g := Gathering.start c asked (k.openMeeting request)
  let x := Run.start g
  let instants := k.transport.instants k.actors asked
  have stops : LocalTransport.Stops k.transport limit instants k.actors x
      (k.transport.exchange limit ⟨g, k.actors⟩) := by
    rw [LocalTransport.exchange]
    by_cases done : g.isDone = true
    · rw [if_pos done]
      refine ⟨⟨_, LocalTransport.reaches_stop rfl, rfl, rfl⟩, fun _ g' isOk => ?_,
        fun _ _ => Option.some_ne_none 0⟩
      cases isOk
      exact done
    · rw [if_neg done]
      have waiting : g.isDone = false := by simpa using done
      refine LocalTransport.stops_pass limit true (LocalTransport.sorted_instants ..) rfl
        waiting List.nodup_range fun p out => ?_
      have below : p < asked.length := List.mem_range.mp out
      have sent : asked[p]? = some asked[p] := List.getElem?_eq_getElem below
      have member : asked[p] ∈ asked := List.getElem_mem below
      exact ⟨asked[p], sent,
        fun due settles => LocalTransport.mem_instants_iff.mpr ⟨_, member, .inr settles⟩,
        .inl ⟨LocalTransport.mem_instants_iff.mpr ⟨_, member, .inl rfl⟩, rfl⟩⟩
  obtain ⟨x', reaches, stage, request_eq⟩ := stops.reaches
  have cleared : Run.Reaches k.transport (k.transport.exchange limit ⟨g, k.actors⟩).actors x' _ _ :=
    Run.reaches_cleared stage
  rw [request_eq] at cleared
  refine ⟨_, _, reaches.trans cleared, rfl, rfl, stops.done, fun timely => ?_⟩
  refine stops.timely (fun now member => ?_) fun id member => ?_
  · obtain ⟨id, member, contacted | settles⟩ := LocalTransport.mem_instants_iff.mp member
    · obtain ⟨due, settles, early⟩ := timely id member
      rw [contacted]
      have le := LocalTransport.contactTime_le_of_settleTime? settles
      exact LocalTransport.lt_seconds_of_le le early
    · obtain ⟨due, settles', early⟩ := timely id member
      obtain rfl := Option.some.inj (settles.symm.trans settles')
      exact early
  · obtain ⟨due, settles, -⟩ := timely id member
    exact Option.ne_none_iff_exists'.mpr ⟨due, settles⟩

/-- A request ends before its deadline when the actors that are asked answer before it. -/
theorem Coordinator.time_ne_none {k : Coordinator} (request : String) (c : Ciphertext)
    (ids : Option (List ℤ)) (timeout : Option Binary64)
    (answers : ∀ id ∈ ids.getD (k.select none),
      k.transport.Answers (timeout.getD k.config.timeout) id) :
    (k.request request c ids timeout).2.2 ≠ none := by
  obtain ⟨-, -, -, -, -, -, early⟩ := k.reaches_request request c ids timeout
  apply early
  intro id member
  exact (answers id member).settles k.actors

end Quorum
