import Quorum.Proofs.Table
import Quorum.Society.Meeting

/-!
# What a meeting keeps is verified

Whatever is called on a meeting, in whatever order and with whatever outcome, one call does one of
four things: nothing, binding the meeting, keeping a verified share for the bound ciphertext, or
ending the meeting. Kept shares therefore stay verified over every run of calls, a bound
ciphertext stays bound, and no kept share is lost.

## Main definitions

* `Meeting.Call`, `Meeting.calls` — runs of calls
* `Meeting.Step` — what one call can do
* `Meeting.Sound` — every kept share is verified
* `Meeting.Extends` — what a later meeting has in common with an earlier one

## Main results

* `Meeting.step_call` — every call is a step
* `Meeting.Sound.step`, `Meeting.Extends.step` — what a step preserves
* `Meeting.calls_invariant` — what every run of calls preserves
-/

namespace Quorum

namespace Meeting

/-- A call on a meeting. -/
inductive Call where
  /-- An actor is accepted. -/
  | accept (actor : Actor)
  /-- A share that was computed elsewhere is submitted. -/
  | submit (id : ℤ) (ciphertext : Ciphertext) (share : DecryptionShare)
  /-- The kept shares are combined. -/
  | decrypt

/-- The meeting after a call, whether the call returns or fails. -/
def call (m : Meeting) : Call → Meeting
  | .accept actor => (m.accept actor).2.1
  | .submit id c share => (m.submit id c share).2
  | .decrypt => m.decrypt.2

/-- The meeting after a run of calls. -/
def calls (m : Meeting) (run : List Call) : Meeting := run.foldl call m

/-- A meeting can be bound to a ciphertext if it is not bound to another one. -/
def Free (m : Meeting) (c : Ciphertext) : Prop := m.bound = none ∨ m.bound = some c

/-- What one call can do to a meeting. -/
inductive Step : Meeting → Meeting → Prop
  | stay (m : Meeting) : Step m m
  /-- The meeting is bound and keeps nothing new. -/
  | bind (m : Meeting) (c : Ciphertext) (free : m.Free c) : Step m { m with bound := some c }
  /-- A verified share is kept. -/
  | keep (m : Meeting) (c : Ciphertext) (share : DecryptionShare) (publicShare : Bytes)
      (free : m.Free c) (known : m.publicShare share.actor = .ok publicShare)
      (right : m.scheme.verifyShare share publicShare c = .ok true) :
      Step m { m with bound := some c, shares := m.shares.insert share.actor share }
  | resolve (m : Meeting) : Step m { m with state := .resolved }

/-- Binding succeeds exactly when the meeting is not bound to another ciphertext. -/
theorem bind?_eq_some_iff {m m' : Meeting} {c : Ciphertext} :
    m.bind? c = some m' ↔ m.Free c ∧ m' = { m with bound := some c } := by
  obtain ⟨material, request, scheme, state, bound, shares⟩ := m
  cases bound with
  | none => simp [bind?, Free, eq_comm]
  | some b =>
    by_cases same : c = b
    · subst same
      simp [bind?, Free, eq_comm]
    · simp [bind?, Free, same, Ne.symm same]

/-- Storing a share in a meeting that has just been bound is a step of the meeting before. -/
theorem step_store {m : Meeting} {c : Ciphertext} {id : ℤ} {publicShare : Bytes}
    (share : DecryptionShare) (free : m.Free c) (known : m.publicShare id = .ok publicShare) :
    Step m (store { m with bound := some c } id publicShare share c).2 := by
  simp only [store]
  split
  -- The meeting stays bound whatever becomes of the share.
  · exact .bind m c free
  · next own =>
    obtain rfl := not_not.mp own
    split
    · exact .bind m c free
    · exact .bind m c free
    · next right => exact .keep m c share publicShare free known right

/-- Considering an actor's ciphertext is a step. -/
theorem step_consider (m : Meeting) (a : Actor) (c : Ciphertext) : Step m (m.consider a c).2 := by
  unfold consider
  split
  · exact .stay m
  · next publicShare known =>
    split
    · exact .stay m
    · split
      · exact .stay m
      · next m' binding =>
        obtain ⟨free, rfl⟩ := bind?_eq_some_iff.mp binding
        split
        -- An actor without a share to give has bound the meeting all the same.
        · exact .bind m c free
        · next share computed => exact step_store share free known

/-- Submitting a share is a step. -/
theorem step_submit (m : Meeting) (id : ℤ) (c : Ciphertext) (share : DecryptionShare) :
    Step m (m.submit id c share).2 := by
  unfold submit
  split
  · exact .stay m
  · split
    · exact .stay m
    · split
      · exact .stay m
      · next publicShare known =>
        split
        · exact .stay m
        · next m' binding =>
          obtain ⟨free, rfl⟩ := bind?_eq_some_iff.mp binding
          exact step_store share free known

/-- Combining the kept shares is a step. -/
theorem step_decrypt (m : Meeting) : Step m m.decrypt.2 := by
  unfold decrypt
  split
  · exact .stay m
  · split
    · exact .stay m
    · split
      · exact .stay m
      -- Whatever combining comes to, nothing but the state changes.
      · unfold conclude
        split
        · exact .resolve m
        · split
          · exact .resolve m
          · split
            · exact .resolve m
            · exact .stay m

/-- Every call is a step. -/
theorem step_call (m : Meeting) (x : Call) : Step m (m.call x) := by
  cases x with
  | accept actor =>
    simp only [call, accept]
    split
    · exact .stay m
    · split
      · exact .stay m
      · next c actor' taken => exact step_consider m actor' c
  | submit id c share => exact step_submit m id c share
  | decrypt => exact step_decrypt m

/-- Every kept share is from the actor under which it is kept, who is one of the society, and is
right for the ciphertext to which the meeting is bound. -/
def Sound (m : Meeting) : Prop :=
  ∀ i share, m.shares.get? i = some share → 0 ≤ i ∧ i < m.material.parties ∧ share.actor = i ∧
    ∃ c publicShare, m.bound = some c ∧ m.material.keys.publicShare i = .ok publicShare ∧
      m.scheme.verifyShare share publicShare c = .ok true

/-- What a later meeting has in common with an earlier one: nothing that was bound or kept is
lost. -/
structure Extends (m m' : Meeting) : Prop where
  material : m'.material = m.material
  scheme : m'.scheme = m.scheme
  /-- A bound ciphertext stays bound. -/
  bound : ∀ c, m.bound = some c → m'.bound = some c
  /-- Whoever has a kept share keeps having one. -/
  keys : m.shares.keys ⊆ m'.shares.keys

/-- The public share of an actor exists only within the society. -/
theorem publicShare_eq_ok_iff {m : Meeting} {id : ℤ} {publicShare : Bytes} :
    m.publicShare id = .ok publicShare ↔
      (0 ≤ id ∧ id < m.material.parties) ∧ m.material.keys.publicShare id = .ok publicShare := by
  by_cases member : 0 ≤ id ∧ id < m.material.parties
  · simp [Meeting.publicShare, member]
  · simp [Meeting.publicShare, member]

/-- A meeting without shares keeps only right ones. -/
theorem sound_new (material : Material) (request : String) (scheme : Scheme) :
    (new material request scheme).Sound := by
  intro i share found
  cases found

/-- A step keeps every kept share right. -/
theorem Sound.step {m m' : Meeting} (sound : m.Sound) (step : Step m m') : m'.Sound := by
  cases step with
  | stay => exact sound
  | resolve => exact sound
  | bind c free =>
    intro i share found
    obtain ⟨nonneg, lt, own, b, publicShare, bound, known, right⟩ := sound i share found
    -- The kept share was verified for the ciphertext that is bound again.
    obtain rfl : b = c := by simpa [Free, bound] using free
    exact ⟨nonneg, lt, own, b, publicShare, rfl, known, right⟩
  | keep c kept publicShare free known right =>
    intro i share found
    rw [Table.get?_insert] at found
    split at found
    · next same =>
      obtain rfl := Option.some.inj found
      -- The share that has just been kept.
      obtain ⟨⟨nonneg, lt⟩, known⟩ := publicShare_eq_ok_iff.mp known
      subst same
      exact ⟨nonneg, lt, rfl, c, publicShare, rfl, known, right⟩
    -- A share that was kept before; the ciphertext it was verified for is bound again.
    · obtain ⟨nonneg, lt, own, b, other, bound, known', right'⟩ := sound i share found
      obtain rfl : b = c := by simpa [Free, bound] using free
      exact ⟨nonneg, lt, own, b, other, rfl, known', right'⟩

theorem Extends.refl (m : Meeting) : m.Extends m :=
  ⟨rfl, rfl, fun _ bound => bound, fun _ member => member⟩

theorem Extends.trans {m₁ m₂ m₃ : Meeting} (first : m₁.Extends m₂) (second : m₂.Extends m₃) :
    m₁.Extends m₃ where
  material := second.material.trans first.material
  scheme := second.scheme.trans first.scheme
  bound := fun c bound => second.bound c (first.bound c bound)
  keys := fun _ member => second.keys (first.keys member)

/-- A step loses nothing. -/
theorem Extends.step {m m' : Meeting} (step : Step m m') : m.Extends m' := by
  cases step with
  | stay => exact refl m
  | resolve => exact ⟨rfl, rfl, fun _ bound => bound, fun _ member => member⟩
  | bind c free =>
    refine ⟨rfl, rfl, fun b bound => ?_, fun _ member => member⟩
    simpa [Free, bound, eq_comm] using free
  | keep c share publicShare free known right =>
    refine ⟨rfl, rfl, fun b bound => ?_, fun i member => Table.mem_keys_insert.mpr (.inr member)⟩
    simpa [Free, bound, eq_comm] using free

/-- A run of calls keeps every kept share right and loses nothing. -/
theorem sound_calls {m : Meeting} (sound : m.Sound) (run : List Call) :
    (m.calls run).Sound ∧ m.Extends (m.calls run) := by
  -- `Sound` carries the induction: one call is a step, and a step preserves it.
  induction run generalizing m with
  | nil => exact ⟨sound, .refl m⟩
  | cons x run ih =>
    obtain ⟨sound', extends'⟩ := ih (sound.step (step_call m x))
    exact ⟨sound', (Extends.step (step_call m x)).trans extends'⟩

/-- A sound meeting keeps at most one share for each actor of the society. -/
theorem Sound.size_le {m : Meeting} (sound : m.Sound) : m.shares.size ≤ m.material.parties :=
  Table.size_le_of_range fun i member => by
    obtain ⟨share, found⟩ := Table.mem_keys_iff.mp member
    obtain ⟨nonneg, lt, -⟩ := sound i share found
    exact ⟨nonneg, lt⟩

theorem Extends.size_le {m m' : Meeting} (later : m.Extends m') : m.shares.size ≤ m'.shares.size :=
  Table.size_le_size later.keys

/-- A quorum is never lost. -/
theorem Extends.hasQuorum {m m' : Meeting} (later : m.Extends m') (quorum : m.hasQuorum = true) :
    m'.hasQuorum = true := by
  have size := later.size_le
  simp only [Meeting.hasQuorum, decide_eq_true_eq, later.material] at quorum ⊢
  omega

/-- After every run of calls on a meeting without shares, every kept share is verified for the
bound ciphertext and there are no more than the society has actors; and no further run of calls
changes the bound ciphertext or loses a kept share. -/
theorem calls_invariant (material : Material) (request : String) (before after : List Call) :
    let m := (new material request .elliptic).calls before
    let m' := m.calls after
    (∀ i share, m.shares.get? i = some share → 0 ≤ i ∧ i < material.parties ∧ share.actor = i ∧
      ∃ c publicShare, m.bound = some c ∧ material.keys.publicShare i = .ok publicShare ∧
        Threshold.verifyShare share publicShare c = .ok true) ∧
    (0 < m.shares.size → m.bound.isSome = true) ∧
    (∀ c, m.bound = some c → m'.bound = some c) ∧
    (∀ i ∈ m.shares.keys, i ∈ m'.shares.keys) ∧
    m.shares.size ≤ m'.shares.size ∧
    (m.hasQuorum = true → m'.hasQuorum = true) ∧
    m.shares.size ≤ material.parties := by
  intro m m'
  -- The calls before make the meeting sound, and those after lose nothing of it.
  obtain ⟨sound, fromNew⟩ := sound_calls (sound_new material request .elliptic) before
  obtain ⟨-, later⟩ := sound_calls sound after
  have same : m.material = material := fromNew.material
  have elliptic : m.scheme = .elliptic := fromNew.scheme
  have kept : ∀ i share, m.shares.get? i = some share → 0 ≤ i ∧ i < material.parties ∧
      share.actor = i ∧ ∃ c publicShare, m.bound = some c ∧
        material.keys.publicShare i = .ok publicShare ∧
          Threshold.verifyShare share publicShare c = .ok true := by
    have entries : m.Sound := sound
    rw [Sound, same, elliptic] at entries
    exact entries
  refine ⟨kept, fun nonempty => ?_, later.bound, later.keys, later.size_le, later.hasQuorum,
    same ▸ sound.size_le⟩
  obtain ⟨i, member⟩ := List.exists_mem_of_length_pos ((Table.length_keys m.shares).symm ▸ nonempty)
  obtain ⟨share, found⟩ := Table.mem_keys_iff.mp member
  obtain ⟨-, -, -, c, -, bound, -⟩ := kept i share found
  rw [bound]
  rfl

end Meeting

end Quorum
