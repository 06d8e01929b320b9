import Quorum.Proofs.Outcome
import Quorum.Proofs.Society.Inbox
import Quorum.Proofs.Society.Meeting

/-!
# The steps of a request

A run of a request asks its actors, takes what is settled in batches until it stops, and then
empties the slots that it may have left behind. It takes these steps in any order that their
conditions allow. A request that has reached its actor may be answered at any later time, even when
its run has stopped; one that has not is cancelled when the run stops. Time is left out: a run may
stop whenever its deadline may strike.

## Main definitions

* `Run` — the state of one run
* `Run.Step`, `Run.Steps` — the steps of one run on the actors
* `Run.Sound` — what is pending for a run and what it is answered

## Main results

* `Run.Step.frame`, `Run.Step.congr` — a step neither changes nor depends on the slots of other
  requests
* `Run.Sound.step`, `Run.Steps.sound` — the slots and answers of a run
-/

namespace Quorum

/-- How far one of the requests of a run has come. -/
inductive Run.Progress where
  /-- It is on its way to the actor. -/
  | sent
  /-- The actor has received the ciphertext. -/
  | arrived
  /-- It is settled with an answer or a failure. -/
  | settled (reply : Outcome ShareResponse)

/-- Where a run stands. -/
inductive Run.Stage where
  /-- It takes batches of settled requests. -/
  | gathering
  /-- It has stopped with a result, and the slots at some actors are left to be emptied. -/
  | clearing (result : Outcome Gathering) (left : List ℤ)

/-- One run of a request. -/
structure Run where
  gathering : Gathering
  /-- The progress of the request at each position. -/
  progress : ℕ → Run.Progress
  stage : Run.Stage

/-- What a run can do next. -/
inductive Run.Act where
  /-- The request at a position reaches its actor. -/
  | contact (position : ℕ)
  /-- The actor answers the request at a position. -/
  | answer (position : ℕ)
  /-- A batch of settled requests is counted. -/
  | take (batch : List Settled)
  /-- The run stops and cancels what is still out. -/
  | stop
  /-- The slot at the next actor is emptied. -/
  | discard

namespace Run

/-- A run of which nothing has happened. -/
def start (g : Gathering) : Run := ⟨g, fun _ => .sent, .gathering⟩

def request (x : Run) : String := x.gathering.meeting.request

def asked (x : Run) : List ℤ := x.gathering.asked

/-- The run with progress at one position. -/
def put (x : Run) (position : ℕ) (progress : Progress) : Run :=
  { x with progress := Function.update x.progress position progress }

/-- The run after it has stopped with a result. -/
def close (x : Run) (result : Outcome Gathering) : Run :=
  { x with stage := .clearing result x.asked }

theorem progress_put_self (x : Run) (p : ℕ) (progress : Progress) :
    (x.put p progress).progress p = progress := Function.update_self ..

theorem progress_put_of_ne {x : Run} {p q : ℕ} {progress : Progress} (different : q ≠ p) :
    (x.put p progress).progress q = x.progress q := Function.update_of_ne different ..

/-- The steps of a run on the actors. -/
inductive Step (t : LocalTransport) (actors : Table ℤ Actor) (x : Run) :
    Act → Table ℤ Actor → Run → Prop
  | contact {p : ℕ} {id : ℤ} (gathering : x.stage = .gathering) (asked : x.asked[p]? = some id)
      (sent : x.progress p = .sent) (reached : t.obstacle? actors id = none) :
      Step t actors x (.contact p)
        (LocalTransport.contact actors id x.request x.gathering.ciphertext) (x.put p .arrived)
  /-- The actor cannot be contacted. -/
  | fail {p : ℕ} {id : ℤ} {f : Fault} (gathering : x.stage = .gathering)
      (asked : x.asked[p]? = some id) (sent : x.progress p = .sent)
      (blocked : t.obstacle? actors id = some f) :
      Step t actors x (.contact p) actors (x.put p (.settled (.error f)))
  | answer {p : ℕ} {id : ℤ} (asked : x.asked[p]? = some id) (arrived : x.progress p = .arrived)
      (answers : id ∉ t.unreachable) :
      Step t actors x (.answer p) (t.answer actors id x.request).2
        (x.put p (.settled (t.answer actors id x.request).1))
  | take {batch : List Settled} {g : Gathering} (gathering : x.stage = .gathering)
      (waiting : x.gathering.isDone = false)
      (settled : ∀ s ∈ batch, s.position ∈ x.gathering.out ∧
        x.progress s.position = .settled s.reply)
      (distinct : (batch.map Settled.position).Nodup)
      (absorbed : x.gathering.absorb batch = .ok g) :
      Step t actors x (.take batch) actors { x with gathering := g }
  /-- Counting a batch ends the run with a fault. -/
  | fault {batch : List Settled} {f : Fault} (gathering : x.stage = .gathering)
      (waiting : x.gathering.isDone = false)
      (settled : ∀ s ∈ batch, s.position ∈ x.gathering.out ∧
        x.progress s.position = .settled s.reply)
      (distinct : (batch.map Settled.position).Nodup)
      (absorbed : x.gathering.absorb batch = .error f) :
      Step t actors x (.take batch) actors (x.close (.error f))
  | stop (gathering : x.stage = .gathering) :
      Step t actors x .stop actors (x.close (.ok x.gathering))
  | discard {result : Outcome Gathering} {id : ℤ} {left : List ℤ}
      (clearing : x.stage = .clearing result (id :: left)) :
      Step t actors x .discard (Coordinator.clear x.request actors [id])
        { x with stage := .clearing result left }

/-- Steps of a run, one after another. -/
inductive Steps (t : LocalTransport) (actors : Table ℤ Actor) (x : Run) :
    List Act → Table ℤ Actor → Run → Prop
  | refl : Steps t actors x [] actors x
  | snoc {acts : List Act} {act : Act} {actors' actors'' : Table ℤ Actor} {x' x'' : Run}
      (before : Steps t actors x acts actors' x') (step : Step t actors' x' act actors'' x'') :
      Steps t actors x (acts ++ [act]) actors'' x''

end Run

/-! ### The request of a run stays the same -/

namespace Gathering

theorem same_of_collect {g g' : Gathering} {s : Settled} (collected : g.collect s = .ok g') :
    g'.meeting.request = g.meeting.request ∧ g'.ciphertext = g.ciphertext ∧
      g'.asked = g.asked ∧ g'.out = g.out := by
  have submitted (id : ℤ) (share : DecryptionShare) :
      (g.meeting.submit id g.ciphertext share).2.request = g.meeting.request := by
    have step := Meeting.step_submit g.meeting id g.ciphertext share
    generalize (g.meeting.submit id g.ciphertext share).2 = m at step ⊢
    cases step <;> rfl
  unfold Gathering.collect at collected
  split at collected
  · next r id _ _ =>
    split at collected
    · have kept := submitted id r.share
      split at collected
      · next m given =>
        rw [given] at kept
        cases collected
        exact ⟨kept, rfl, rfl, rfl⟩
      · next f m given =>
        rw [given] at kept
        split at collected
        · cases collected
          exact ⟨kept, rfl, rfl, rfl⟩
        · cases collected
    · cases collected
      exact ⟨rfl, rfl, rfl, rfl⟩
  · cases collected
    exact ⟨rfl, rfl, rfl, rfl⟩

theorem same_of_collectAll {g g' : Gathering} {batch : List Settled}
    (collected : g.collectAll batch = .ok g') :
    g'.meeting.request = g.meeting.request ∧ g'.ciphertext = g.ciphertext ∧
      g'.asked = g.asked ∧ g'.out = g.out := by
  induction batch generalizing g with
  | nil =>
    cases collected
    exact ⟨rfl, rfl, rfl, rfl⟩
  | cons s batch ih =>
    obtain ⟨next, first, rest⟩ := Outcome.bind_eq_ok.mp collected
    obtain ⟨request, ciphertext, asked, out⟩ := same_of_collect first
    obtain ⟨request', ciphertext', asked', out'⟩ := ih rest
    exact ⟨request'.trans request, ciphertext'.trans ciphertext, asked'.trans asked,
      out'.trans out⟩

/-- Taking a batch leaves the request, the ciphertext and the asked actors, and what the batch does
not settle stays out. -/
theorem same_of_absorb {g g' : Gathering} {batch : List Settled}
    (absorbed : g.absorb batch = .ok g') :
    g'.meeting.request = g.meeting.request ∧ g'.ciphertext = g.ciphertext ∧
      g'.asked = g.asked ∧
      g'.out = g.out.filter fun i => !batch.any fun s => s.position == i := by
  obtain ⟨request, ciphertext, asked, out⟩ := same_of_collectAll absorbed
  exact ⟨request, ciphertext, asked, out⟩

end Gathering

namespace Run

variable {t : LocalTransport} {actors actors' : Table ℤ Actor} {x x' : Run} {act : Act}
  {acts : List Act}

theorem Step.same (step : Step t actors x act actors' x') : x'.request = x.request ∧
    x'.gathering.ciphertext = x.gathering.ciphertext ∧ x'.asked = x.asked := by
  cases step with
  | take gathering waiting settled distinct absorbed =>
    obtain ⟨request, ciphertext, asked, -⟩ := Gathering.same_of_absorb absorbed
    exact ⟨request, ciphertext, asked⟩
  | _ => exact ⟨rfl, rfl, rfl⟩

theorem Steps.same (steps : Steps t actors x acts actors' x') : x'.request = x.request ∧
    x'.gathering.ciphertext = x.gathering.ciphertext ∧ x'.asked = x.asked := by
  induction steps with
  | refl => exact ⟨rfl, rfl, rfl⟩
  | snoc before step ih =>
    obtain ⟨request, ciphertext, asked⟩ := step.same
    exact ⟨request.trans ih.1, ciphertext.trans ih.2.1, asked.trans ih.2.2⟩

/-! ### A step stays with the slots of its request -/

/-- A step leaves the slots of other requests as they are. -/
theorem Step.frame (direct : ∀ id ∈ x.asked, t.Direct id)
    (step : Step t actors x act actors' x') {other : String}
    (different : other ≠ x.request) : sight actors' other = sight actors other := by
  funext i
  cases step with
  | contact gathering asked sent reached =>
    rw [sight_contact, if_neg fun both => different both.2]
  | answer asked arrived answers =>
    rw [(direct _ (List.mem_of_getElem? asked)).sight_answer, if_neg fun both => different both.2]
  | discard clearing => rw [sight_clear, if_neg fun both => different both.2]
  | _ => rfl

/-- What a step does depends on the slots of its request alone. -/
theorem Step.congr (direct : ∀ id ∈ x.asked, t.Direct id) (step : Step t actors x act actors' x')
    {others : Table ℤ Actor} (alike : sight others x.request = sight actors x.request) :
    ∃ others', Step t others x act others' x' ∧
      sight others' x.request = sight actors' x.request := by
  have obstacle {p : ℕ} {id : ℤ} (asked : x.asked[p]? = some id) :
      t.obstacle? others id = t.obstacle? actors id := by
    have direct := direct id (List.mem_of_getElem? asked)
    rw [direct.obstacle?_eq others x.request, direct.obstacle?_eq actors x.request, alike]
  cases step with
  | contact gathering asked sent reached =>
    refine ⟨_, .contact gathering asked sent ((obstacle asked).trans reached), ?_⟩
    funext i
    rw [sight_contact, sight_contact, alike]
  | fail gathering asked sent blocked =>
    exact ⟨others, .fail gathering asked sent ((obstacle asked).trans blocked), alike⟩
  | @answer p id asked arrived answers =>
    have direct := direct id (List.mem_of_getElem? asked)
    have reply : (t.answer others id x.request).1 = (t.answer actors id x.request).1 := by
      rw [direct.reply, direct.reply, alike]
    refine ⟨(t.answer others id x.request).2, ?_, ?_⟩
    · rw [← reply]
      exact .answer asked arrived answers
    · funext i
      rw [direct.sight_answer, direct.sight_answer, alike]
  | take gathering waiting settled distinct absorbed =>
    exact ⟨others, .take gathering waiting settled distinct absorbed, alike⟩
  | fault gathering waiting settled distinct absorbed =>
    exact ⟨others, .fault gathering waiting settled distinct absorbed, alike⟩
  | stop gathering => exact ⟨others, .stop gathering, alike⟩
  | discard clearing =>
    refine ⟨_, .discard clearing, ?_⟩
    funext i
    rw [sight_clear, sight_clear, alike]

end Run

/-! ### Slots and answers -/

/-- What is in the slot of a request at an actor. -/
def slot (actors : Table ℤ Actor) (request : String) (id : ℤ) : Option Ciphertext :=
  (sight actors request id).bind Holder.pending

namespace Run

/-- What is pending for a run, what it has been answered, and what it has emptied. -/
structure Sound (initial : Table ℤ Actor) (actors : Table ℤ Actor) (x : Run) : Prop where
  /-- Nothing but slots changes. -/
  holders : ∀ id, ∃ pending, sight actors x.request id =
    (sight initial x.request id).map (·.withSlot pending)
  untouched : ∀ id ∉ x.asked, sight actors x.request id = sight initial x.request id
  /-- An actor that was reached has the routed ciphertext in its slot, or has answered it. -/
  routed : ∀ p id, x.asked[p]? = some id → x.progress p = .arrived →
    slot actors x.request id = none ∨ slot actors x.request id = some x.gathering.ciphertext
  /-- Every answer is the actor's share for the routed ciphertext. -/
  answered : ∀ p r, x.progress p = .settled (.ok r) → ∃ id holder share,
    x.asked[p]? = some id ∧ sight initial x.request id = some holder ∧
      holder.compute x.gathering.ciphertext = .ok share ∧
      r = ⟨id, x.request, x.gathering.ciphertext, share⟩
  /-- The slots that are not left to be emptied are empty. -/
  emptied : ∀ result left, x.stage = .clearing result left → ∃ before, x.asked = before ++ left ∧
    ∀ id ∈ before, slot actors x.request id = none

variable {t : LocalTransport} {initial actors actors' : Table ℤ Actor} {x x' : Run} {act : Act}
  {acts : List Act}

/-- At the start every slot is as it was. -/
theorem sound_start (actors : Table ℤ Actor) (g : Gathering) : Sound actors actors (start g) where
  holders := fun id => by
    refine ⟨slot actors (start g).request id, ?_⟩
    cases seen : sight actors (start g).request id with
    | none => rfl
    | some h => simp [slot, seen, Holder.withSlot]
  untouched := fun _ _ => rfl
  routed := fun p id _ arrived => by cases arrived
  answered := fun p r settled => by cases settled
  emptied := fun result left clearing => by cases clearing

section Writing

/-- Slots of a request are written at some actors. -/
def Writes (request : String) (written : List ℤ) (pending : Option Ciphertext)
    (actors actors' : Table ℤ Actor) : Prop :=
  ∀ i, sight actors' request i = if i ∈ written then
    (sight actors request i).map (·.withSlot pending) else sight actors request i

variable {request : String} {written : List ℤ} {pending : Option Ciphertext} {i : ℤ}

theorem Writes.slot_of_mem (writes : Writes request written pending actors actors')
    (member : i ∈ written) :
    slot actors' request i = none ∨ slot actors' request i = pending := by
  rw [slot, writes, if_pos member]
  cases sight actors request i with
  | none => exact .inl rfl
  | some h => exact .inr rfl

theorem Writes.slot_cases (writes : Writes request written pending actors actors') (i : ℤ) :
    slot actors' request i = none ∨ slot actors' request i = pending ∨
      slot actors' request i = slot actors request i := by
  by_cases member : i ∈ written
  · rcases writes.slot_of_mem member with empty | same
    · exact .inl empty
    · exact .inr (.inl same)
  · refine .inr (.inr ?_)
    rw [slot, writes, if_neg member, slot]

theorem writes_contact (actors : Table ℤ Actor) (id : ℤ) (request : String) (c : Ciphertext) :
    Writes request [id] (some c) actors (LocalTransport.contact actors id request c) := fun i => by
  rw [sight_contact]
  simp only [and_true, List.mem_singleton]

theorem writes_answer {id : ℤ} (direct : t.Direct id) (actors : Table ℤ Actor) (request : String) :
    Writes request [id] none actors (t.answer actors id request).2 := fun i => by
  rw [direct.sight_answer]
  simp only [and_true, List.mem_singleton]

theorem writes_clear (request : String) (actors : Table ℤ Actor) (ids : List ℤ) :
    Writes request ids none actors (Coordinator.clear request actors ids) := fun i => by
  rw [sight_clear]
  simp only [and_true]

/-- Emptying slots of asked actors, and filling them with the routed ciphertext before the run
stops, keeps a run sound. -/
theorem Sound.write (sound : Sound initial actors x)
    (writes : Writes x.request written pending actors actors')
    (asked : ∀ id ∈ written, id ∈ x.asked)
    (allowed : pending = none ∨ pending = some x.gathering.ciphertext ∧ x.stage = .gathering) :
    Sound initial actors' x where
  holders := fun id => by
    obtain ⟨before, same⟩ := sound.holders id
    rw [writes id, same]
    by_cases member : id ∈ written
    · refine ⟨pending, ?_⟩
      rw [if_pos member, Option.map_map]
      rfl
    · exact ⟨before, if_neg member⟩
  untouched := fun id outside => by
    rw [writes id, if_neg fun member => outside (asked id member), sound.untouched id outside]
  routed := fun p id sent arrived => by
    have before := sound.routed p id sent arrived
    rcases writes.slot_cases id with empty | same | same
    · exact .inl empty
    · rw [same]
      exact allowed.imp (fun none => none) And.left
    · rwa [same]
  answered := sound.answered
  emptied := fun result left clearing => by
    obtain ⟨before, split, empty⟩ := sound.emptied result left clearing
    refine ⟨before, split, fun id member => ?_⟩
    -- A run that has stopped only empties slots.
    have nothing : pending = none := allowed.elim (fun none => none) fun filled => by
      rw [filled.2] at clearing
      cases clearing
    rcases writes.slot_cases id with empty | same | same
    · exact empty
    · exact same.trans nothing
    · exact same.trans (empty id member)

end Writing

/-- An actor has been reached. -/
theorem Sound.arrive (sound : Sound initial actors x) {p : ℕ} {id : ℤ}
    (asked : x.asked[p]? = some id) (routed : slot actors x.request id = none ∨
      slot actors x.request id = some x.gathering.ciphertext) :
    Sound initial actors (x.put p .arrived) where
  holders := sound.holders
  untouched := sound.untouched
  routed := fun q i sent arrived => by
    by_cases same : q = p
    · subst same
      obtain rfl := Option.some.inj (asked.symm.trans sent)
      exact routed
    · exact sound.routed q i sent (by rwa [progress_put_of_ne same] at arrived)
  answered := fun q r settled => by
    have different : q ≠ p := by
      rintro rfl
      rw [progress_put_self] at settled
      cases settled
    rw [progress_put_of_ne different] at settled
    exact sound.answered q r settled
  emptied := sound.emptied

/-- A request has been settled. -/
theorem Sound.settle (sound : Sound initial actors x) {p : ℕ} {reply : Outcome ShareResponse}
    (right : ∀ r, reply = .ok r → ∃ id holder share,
      x.asked[p]? = some id ∧ sight initial x.request id = some holder ∧
        holder.compute x.gathering.ciphertext = .ok share ∧
        r = ⟨id, x.request, x.gathering.ciphertext, share⟩) :
    Sound initial actors (x.put p (.settled reply)) where
  holders := sound.holders
  untouched := sound.untouched
  routed := fun q i sent arrived => by
    have different : q ≠ p := by
      rintro rfl
      rw [progress_put_self] at arrived
      cases arrived
    exact sound.routed q i sent (by rwa [progress_put_of_ne different] at arrived)
  answered := fun q r settled => by
    by_cases same : q = p
    · subst same
      rw [progress_put_self, Progress.settled.injEq] at settled
      exact right r settled
    · rw [progress_put_of_ne same] at settled
      exact sound.answered q r settled
  emptied := sound.emptied

theorem Sound.gather (sound : Sound initial actors x) (gathering : x.stage = .gathering)
    {g : Gathering} (request : g.meeting.request = x.request)
    (ciphertext : g.ciphertext = x.gathering.ciphertext) (asked : g.asked = x.asked) :
    Sound initial actors { x with gathering := g } := by
  obtain ⟨⟨c, ids, out, meeting⟩, progress, stage⟩ := x
  obtain ⟨c', ids', out', meeting'⟩ := g
  simp only [Run.request, Run.asked] at request ciphertext asked
  subst ciphertext asked
  obtain ⟨holders, untouched, routed, answered, -⟩ := sound
  simp only [Run.request, Run.asked] at holders untouched routed answered
  rw [← request] at holders untouched routed answered
  refine ⟨holders, untouched, routed, answered, fun result left clearing => ?_⟩
  cases gathering.symm.trans clearing

theorem Sound.close (sound : Sound initial actors x) (result : Outcome Gathering) :
    Sound initial actors (x.close result) where
  holders := sound.holders
  untouched := sound.untouched
  routed := sound.routed
  answered := sound.answered
  emptied := fun result' left clearing => by
    cases clearing
    exact ⟨[], rfl, fun id member => by cases member⟩

/-- The reply of an actor that was reached is its share for the routed ciphertext. -/
theorem Sound.reply (sound : Sound initial actors x) {p : ℕ} {id : ℤ} (direct : t.Direct id)
    (asked : x.asked[p]? = some id) (arrived : x.progress p = .arrived) {r : ShareResponse}
    (isOk : (t.answer actors id x.request).1 = .ok r) : ∃ id holder share,
      x.asked[p]? = some id ∧ sight initial x.request id = some holder ∧
        holder.compute x.gathering.ciphertext = .ok share ∧
        r = ⟨id, x.request, x.gathering.ciphertext, share⟩ := by
  obtain ⟨pending, seen⟩ := sound.holders id
  have routed := sound.routed p id asked arrived
  rw [direct.reply, seen] at isOk
  rw [slot, seen] at routed
  cases start : sight initial x.request id with
  | none =>
    rw [start] at isOk
    cases isOk
  | some h =>
    rw [start] at isOk routed
    simp only [Option.map_some, Option.bind_some, Holder.withSlot] at isOk routed
    rcases routed with rfl | rfl
    · cases isOk
    · cases computed : h.compute x.gathering.ciphertext with
      | error f =>
        have refused : (h.withSlot (some x.gathering.ciphertext)).respond x.request = .error f := by
          simp only [Holder.respond, Holder.withSlot]
          exact congrArg (Except.map _) computed
        rw [Holder.withSlot] at refused
        rw [refused] at isOk
        cases isOk
      | ok share =>
        have given : (h.withSlot (some x.gathering.ciphertext)).respond x.request =
            .ok (x.gathering.ciphertext, share) := by
          simp only [Holder.respond, Holder.withSlot]
          exact congrArg (Except.map _) computed
        rw [Holder.withSlot] at given
        rw [given] at isOk
        cases isOk
        exact ⟨id, h, share, asked, start, computed, rfl⟩

/-- A step of a run keeps it sound. -/
theorem Sound.step (direct : ∀ id ∈ x.asked, t.Direct id) (sound : Sound initial actors x)
    (step : Step t actors x act actors' x') : Sound initial actors' x' := by
  cases step with
  | @contact p id gathering asked sent reached =>
    have writes := writes_contact actors id x.request x.gathering.ciphertext
    have member : id ∈ x.asked := List.mem_of_getElem? asked
    have written : Sound initial _ x := sound.write writes
      (fun i written => List.mem_singleton.mp written ▸ member) (.inr ⟨rfl, gathering⟩)
    exact written.arrive asked (writes.slot_of_mem (List.mem_singleton.mpr rfl))
  | fail gathering asked sent blocked =>
    exact sound.settle fun r isOk => by cases isOk
  | @answer p id asked arrived answers =>
    have member : id ∈ x.asked := List.mem_of_getElem? asked
    have settled := sound.settle fun r isOk => sound.reply (direct id member) asked arrived isOk
    exact settled.write (writes_answer (direct id member) actors x.request)
      (fun i written => List.mem_singleton.mp written ▸ member) (.inl rfl)
  | take gathering waiting settled distinct absorbed =>
    obtain ⟨request, ciphertext, asked, -⟩ := Gathering.same_of_absorb absorbed
    exact sound.gather gathering request ciphertext asked
  | fault gathering waiting settled distinct absorbed => exact sound.close _
  | stop gathering => exact sound.close _
  | @discard result id left clearing =>
    obtain ⟨before, split, empty⟩ := sound.emptied result (id :: left) clearing
    have writes := writes_clear x.request actors [id]
    have member : id ∈ x.asked := by
      rw [split]
      exact List.mem_append_right before List.mem_cons_self
    have written : Sound initial _ x := sound.write writes
      (fun i written => List.mem_singleton.mp written ▸ member) (.inl rfl)
    refine { written with emptied := fun result' left' clearing' => ?_ }
    cases clearing'
    -- One more slot is empty.
    refine ⟨before ++ [id], split.trans (List.append_cons ..), fun i emptied => ?_⟩
    rcases List.mem_append.mp emptied with earlier | last
    · rcases writes.slot_cases i with none | none | same
      · exact none
      · exact none
      · exact same.trans (empty i earlier)
    · rcases writes.slot_of_mem last with none | none
      · exact none
      · exact none

/-- Every run is sound. -/
theorem Steps.sound {g : Gathering} (direct : ∀ id ∈ g.asked, t.Direct id)
    (steps : Steps t actors (start g) acts actors' x') : Sound actors actors' x' := by
  induction steps with
  | refl => exact sound_start actors g
  | snoc before step ih => exact ih.step (before.same.2.2 ▸ direct) step

/-- A run that has ended leaves the slots of its request empty at the actors that were asked. -/
theorem Sound.slot_of_ended (sound : Sound initial actors x) {result : Outcome Gathering}
    (ended : x.stage = .clearing result []) (id : ℤ) :
    slot actors x.request id = if id ∈ x.asked then none else slot initial x.request id := by
  obtain ⟨before, split, empty⟩ := sound.emptied result [] ended
  rw [List.append_nil] at split
  by_cases member : id ∈ x.asked
  · rw [if_pos member]
    exact empty id (split ▸ member)
  · rw [if_neg member, slot, sound.untouched id member, slot]

end Run

end Quorum
