import Quorum.Proofs.Society.Request
import Quorum.Proofs.Society.Schedule

/-!
# Requests that run at the same time

Several runs take their steps in any order on the same actors. As long as the ids of their requests
differ, every run goes as if it were alone.

## Main definitions

* `World`, `Interleaved` — runs that take turns

## Main results

* `Interleaved.alone` — a run among others is a run alone
* `Coordinator.interleaved_isolation` — requests do not disturb each other
-/

namespace Quorum

/-- Runs on the same actors. -/
structure World (ι : Type*) where
  actors : Table ℤ Actor
  runs : ι → Run

/-- Steps of several runs in some order. -/
inductive Interleaved {ι : Type*} [DecidableEq ι] (t : LocalTransport) (w : World ι) :
    List (ι × Run.Act) → World ι → Prop
  | refl : Interleaved t w [] w
  | snoc {acts : List (ι × Run.Act)} {i : ι} {act : Run.Act} {w' : World ι} {actors : Table ℤ Actor}
      {x : Run} (before : Interleaved t w acts w')
      (step : Run.Step t w'.actors (w'.runs i) act actors x) :
      Interleaved t w (acts ++ [(i, act)]) ⟨actors, Function.update w'.runs i x⟩

/-- The acts of one run among those of several. -/
def ownActs {ι : Type*} [DecidableEq ι] (i : ι) (acts : List (ι × Run.Act)) : List Run.Act :=
  acts.filterMap fun a => if a.1 = i then some a.2 else none

section Interleaving

variable {ι : Type*} [DecidableEq ι] {t : LocalTransport} {w w' : World ι}
  {acts : List (ι × Run.Act)}

theorem ownActs_concat (i j : ι) (acts : List (ι × Run.Act)) (act : Run.Act) :
    ownActs i (acts ++ [(j, act)]) =
      if j = i then ownActs i acts ++ [act] else ownActs i acts := by
  rw [ownActs, List.filterMap_append]
  by_cases own : j = i
  · simp [ownActs, own]
  · simp [ownActs, own]

/-- Runs whose requests have different ids go as if each were alone: the acts of a run take it to
the same state, with the same slots. -/
theorem Interleaved.alone (plain : t.Plain) (steps : Interleaved t w acts w')
    (distinct : Function.Injective fun i => (w.runs i).request) (i : ι) :
    ∃ actors, Run.Steps t w.actors (w.runs i) (ownActs i acts) actors (w'.runs i) ∧
      sight actors (w.runs i).request = sight w'.actors (w.runs i).request := by
  induction steps generalizing i with
  | refl => exact ⟨w.actors, .refl, rfl⟩
  | @snoc acts j act w' actors' x before step ih =>
    obtain ⟨actors, alone, alike⟩ := ih i
    have request : (w'.runs i).request = (w.runs i).request := alone.same.1
    rw [ownActs_concat]
    by_cases own : j = i
    · subst own
      rw [← request] at alike
      obtain ⟨others, step', alike'⟩ := step.congr (fun id _ => plain.direct id) alike
      dsimp only
      rw [if_pos rfl, Function.update_self]
      refine ⟨others, alone.snoc step', ?_⟩
      rw [← request]
      exact alike'
    · -- The step of another run is not seen.
      have unseen : sight actors' (w.runs i).request = sight w'.actors (w.runs i).request := by
        refine step.frame (fun id _ => plain.direct id) fun same => own ?_
        obtain ⟨_, other, -⟩ := ih j
        rw [other.same.1] at same
        exact (distinct same).symm
      dsimp only
      rw [if_neg own, Function.update_of_ne (Ne.symm own)]
      exact ⟨actors, alone, alike.trans unseen.symm⟩

end Interleaving

namespace Coordinator

/-- Requests of a coordinator for which nothing has happened yet. -/
def world {ι : Type*} (k : Coordinator) (request : ι → String) (c : ι → Ciphertext)
    (asked : ι → List ℤ) : World ι :=
  ⟨k.actors, fun i => .start (.start (c i) (asked i) (k.openMeeting (request i)))⟩

/-- Requests with different ids over the same actors, whatever order their steps are taken in. Every
answer of a request carries the ciphertext that it routed, with the share that the actor computes
for it. The request goes as it would alone, by its own acts. Its next step leaves the slots of the
other requests as they are, and would be the same with anything else in them. When it has ended, by
whatever outcome, its slots are empty at the actors that were asked and untouched at the others. -/
theorem interleaved_isolation {ι : Type*} [DecidableEq ι] (k : Coordinator)
    (plain : k.transport.Plain) {request : ι → String} (distinct : Function.Injective request)
    (c : ι → Ciphertext) (asked : ι → List ℤ) {acts : List (ι × Run.Act)} {w : World ι}
    (steps : Interleaved k.transport (k.world request c asked) acts w) (i : ι) :
    (∀ p r, (w.runs i).progress p = .settled (.ok r) → ∃ id a share,
      (asked i)[p]? = some id ∧ k.actors.get? id = some a ∧ a.compute (c i) = .ok share ∧
        r = ⟨id, request i, c i, share⟩) ∧
    (∃ actors, Run.Steps k.transport k.actors ((k.world request c asked).runs i) (ownActs i acts)
        actors (w.runs i) ∧
      ∀ id, slot actors (request i) id = slot w.actors (request i) id) ∧
    (∀ act actors x, Run.Step k.transport w.actors (w.runs i) act actors x →
      (∀ j ≠ i, ∀ id, slot actors (request j) id = slot w.actors (request j) id) ∧
      ∀ others, sight others (request i) = sight w.actors (request i) →
        ∃ others', Run.Step k.transport others (w.runs i) act others' x ∧
          sight others' (request i) = sight actors (request i)) ∧
    (∀ result, (w.runs i).stage = .clearing result [] →
      (∀ id ∈ asked i, slot w.actors (request i) id = none) ∧
      ∀ id ∉ asked i, slot w.actors (request i) id = slot k.actors (request i) id) := by
  obtain ⟨actors, alone, alike⟩ := steps.alone plain distinct i
  change sight actors (request i) = sight w.actors (request i) at alike
  obtain ⟨request_eq, ciphertext_eq, asked_eq⟩ := alone.same
  change (w.runs i).request = request i at request_eq
  change (w.runs i).gathering.ciphertext = c i at ciphertext_eq
  change (w.runs i).asked = asked i at asked_eq
  have sound : (w.runs i).Sound k.actors actors := alone.sound fun id _ => plain.direct id
  have slots (id : ℤ) : slot actors (request i) id = slot w.actors (request i) id := by
    rw [slot, alike, slot]
  refine ⟨?_, ⟨actors, alone, slots⟩, fun act actors' x step => ⟨?_, ?_⟩,
    fun result ended => ⟨?_, ?_⟩⟩
  · intro p r settled
    obtain ⟨id, holder, share, sent, seen, computed, rfl⟩ := sound.answered p r settled
    rw [asked_eq] at sent
    rw [request_eq] at seen
    rw [ciphertext_eq] at computed
    obtain ⟨a, found, rfl⟩ := Option.map_eq_some_iff.mp seen
    exact ⟨id, a, share, sent, found, computed, by rw [request_eq, ciphertext_eq]⟩
  · intro j different id
    have other : request j ≠ (w.runs i).request := by
      rw [request_eq]
      exact fun same => different (distinct same)
    rw [slot, step.frame (fun id _ => plain.direct id) other, slot]
  · intro others same
    rw [← request_eq] at same ⊢
    exact step.congr (fun id _ => plain.direct id) same
  · intro id member
    have ends := sound.slot_of_ended ended id
    rw [request_eq, asked_eq, if_pos member, slots] at ends
    exact ends
  · intro id outside
    have ends := sound.slot_of_ended ended id
    rw [request_eq, asked_eq, if_neg outside, slots] at ends
    exact ends

/-- Two requests to one actor. The first is answered and ends; what the second one waits for is
still in its slot. -/
theorem interleaved_isolation_two_requests :
    ∃ (k : Coordinator) (c : Ciphertext) (w : World Bool), k.transport.Plain ∧
      Interleaved k.transport (k.world (fun first => cond first "a" "b") (fun _ => c) fun _ => [0])
        [(true, .contact 0), (false, .contact 0), (true, .answer 0), (true, .stop),
          (true, .discard)] w ∧
      slot w.actors "a" 0 = none ∧ slot w.actors "b" 0 = some c := by
  obtain ⟨material, -⟩ := Gathering.exists_deal_of_zero_draws
  let k : Coordinator := ⟨material, default, .ofList [(0, .new default .elliptic)], .ideal, default,
    0, .elliptic⟩
  have distinct : Function.Injective fun first : Bool => cond first "a" "b" := by decide
  have steps₀ : Interleaved k.transport
      (k.world (fun first => cond first "a" "b") (fun _ => default) fun _ => [0]) [] _ := .refl
  have steps₁ := steps₀.snoc (i := true) (.contact (p := 0) rfl rfl rfl rfl)
  have steps₂ := steps₁.snoc (i := false) (.contact (p := 0) rfl rfl rfl rfl)
  have steps₃ := steps₂.snoc (i := true) (.answer (p := 0) rfl rfl List.not_mem_nil)
  have steps₄ := steps₃.snoc (i := true) (.stop rfl)
  have steps₅ := steps₄.snoc (i := true) (.discard rfl)
  obtain ⟨-, -, -, ended⟩ := interleaved_isolation k rfl distinct _ _ steps₅ true
  exact ⟨k, default, _, rfl, steps₅, (ended _ rfl).1 0 (List.mem_singleton.mpr rfl), rfl⟩

end Coordinator

end Quorum
