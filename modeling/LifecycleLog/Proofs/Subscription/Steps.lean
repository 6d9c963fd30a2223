-- What a reply leads to while claims are switched off, and when an entry is at
-- hand after it, claims or none. Of a state only the phase and the place of the
-- pending pass matter here; counters and times decide how long the loop waits,
-- and a signal may end it almost anywhere.
import LifecycleLog.Subscription.Loop

namespace LifecycleLog.Subscription

/-! ## Views of a state -/

def State.Ended (s : State) : Prop := ∃ result, s.phase = .finished result

def State.At (s : State) (phase : Phase) (position : Option Nat) : Prop :=
  s.phase = phase ∧ s.pendingFrom = position

/-- The ids of the entries that are left of a batch. -/
def Batch.ids (b : Batch) : List Nat := b.entry.id :: b.rest.map (·.id)

/-- How a batch is begun: one that is an event goes to the handler. -/
def Batch.phase (b : Batch) : Phase :=
  match Event.decode b.entry.fields with
  | .ok (some event) => .handling event b
  | _ => .acking b

/-- No entry is being handled or acknowledged. -/
def Phase.Resting : Phase → Prop
  | .handling _ _ => False
  | .acking _ => False
  | _ => True

variable {stream : String} {o : Options} {s : State} {k : Outlook}

theorem State.Ended.resting (h : s.Ended) : s.phase.Resting := by
  obtain ⟨result, hp⟩ := h
  rw [hp]
  trivial

theorem resting_of {phase : Phase} {position : Option Nat} (h : s.Ended ∨ s.At phase position)
    (hr : phase.Resting) : s.phase.Resting := by
  rcases h with he | ha
  · exact he.resting
  · rw [ha.1]
    exact hr

theorem ended_finish (s : State) (result : Except EventError Unit) : (s.finish result).Ended :=
  ⟨result, rfl⟩

theorem interruptible_cases (s : State) (k : Outlook) (phase : Phase) :
    (s.interruptible k phase).Ended ∨ (s.interruptible k phase).At phase s.pendingFrom := by
  unfold State.interruptible
  split
  · exact Or.inl (ended_finish _ _)
  · exact Or.inr ⟨rfl, rfl⟩

theorem round_cases (ho : o.claimIdle = none) (s : State) (k : Outlook) :
    (s.round o k).Ended ∨ (s.round o k).At .reading s.pendingFrom := by
  unfold State.round
  split
  · exact Or.inl (ended_finish _ _)
  · rw [ho]
    exact interruptible_cases _ _ _

theorem at_turnTo (s : State) (b : Batch) : (s.turnTo b).At b.phase s.pendingFrom := by
  unfold State.turnTo Batch.phase
  rcases Event.decode b.entry.fields with _ | _ | event <;> exact ⟨rfl, rfl⟩

theorem holdBack_cases (s : State) (k : Outlook) :
    (s.holdBack k).Ended ∨ (s.holdBack k).At .retryWait s.pendingFrom :=
  interruptible_cases _ _ _

/-! ## Replies -/

theorem step_joined (ho : o.claimIdle = none) {attempt : Nat} (hp : s.phase = .joining attempt)
    (fresh : Bool) : (s.step stream o (.created (.ok fresh)) k).Ended ∨
      (s.step stream o (.created (.ok fresh)) k).At .reading (some 0) := by
  unfold State.step
  rw [hp]
  exact round_cases ho _ k

theorem step_created (ho : o.claimIdle = none) {attempt : Nat} (hp : s.phase = .joining attempt)
    (result : Except StoreError Bool) :
    (s.step stream o (.created result) k).Ended ∨
      (s.step stream o (.created result) k).phase = .joinWait attempt ∨
      (∃ fresh, result = .ok fresh) ∧
        (s.step stream o (.created result) k).At .reading (some 0) := by
  cases result with
  | ok fresh =>
    rcases step_joined ho hp fresh with h | h
    · exact Or.inl h
    · exact Or.inr (Or.inr ⟨⟨fresh, rfl⟩, h⟩)
  | error e =>
    unfold State.step
    rw [hp]
    show (s.joined stream o k attempt (.error e)).Ended ∨ _
    simp only [State.joined]
    split
    · exact Or.inl (ended_finish _ _)
    · rcases interruptible_cases s k (.joinWait attempt) with h | h
      · exact Or.inl h
      · exact Or.inr (Or.inl h.1)

theorem step_readNone (ho : o.claimIdle = none) (hp : s.phase = .reading) :
    (s.step stream o (.entries (.ok [])) k).Ended ∨
      (s.step stream o (.entries (.ok [])) k).At .reading none := by
  unfold State.step
  rw [hp]
  exact round_cases ho _ k

theorem step_readSome (hp : s.phase = .reading) (e : Entry) (rest : List Entry) :
    (s.step stream o (.entries (.ok (e :: rest))) k).At (Batch.phase ⟨e, rest, false⟩)
      (s.pendingFrom.map (fun _ => (rest.getLastD e).id)) := by
  unfold State.step
  rw [hp]
  exact at_turnTo _ _

theorem step_readFailed (hp : s.phase = .reading) (e : StoreError) :
    (s.step stream o (.entries (.error e)) k).Ended ∨
      (s.step stream o (.entries (.error e)) k).At .readWait s.pendingFrom := by
  unfold State.step
  rw [hp]
  simp only
  split
  · exact interruptible_cases _ _ _
  · exact Or.inl (ended_finish _ _)

theorem step_handled {event : Event} {b : Batch} (hp : s.phase = .handling event b) :
    (s.step stream o (.handled (.ok ())) k).At (.acking b) s.pendingFrom := by
  unfold State.step
  rw [hp]
  exact ⟨rfl, rfl⟩

theorem step_handlerFailed {event : Event} {b : Batch} (hp : s.phase = .handling event b)
    (e : EventError) : (s.step stream o (.handled (.error e)) k).Ended ∨
      (s.step stream o (.handled (.error e)) k).At .retryWait s.pendingFrom := by
  unfold State.step
  rw [hp]
  exact holdBack_cases _ _

theorem step_ackFailed {b : Batch} (hp : s.phase = .acking b) (e : StoreError) :
    (s.step stream o (.acked (.error e)) k).Ended ∨
      (s.step stream o (.acked (.error e)) k).At .retryWait s.pendingFrom := by
  unfold State.step
  rw [hp]
  exact holdBack_cases _ _

theorem step_acked {e next : Entry} {rest : List Entry} {claimed : Bool}
    (hp : s.phase = .acking ⟨e, next :: rest, claimed⟩) (n : Nat) :
    (s.step stream o (.acked (.ok n)) k).At (Batch.phase ⟨next, rest, claimed⟩) s.pendingFrom := by
  unfold State.step
  rw [hp]
  exact at_turnTo _ _

theorem step_ackedLast (ho : o.claimIdle = none) {e : Entry}
    (hp : s.phase = .acking ⟨e, [], false⟩) (n : Nat) :
    (s.step stream o (.acked (.ok n)) k).Ended ∨
      (s.step stream o (.acked (.ok n)) k).At .reading s.pendingFrom := by
  unfold State.step
  rw [hp]
  exact round_cases ho _ k

theorem step_rejoins {attempt : Nat} (hp : s.phase = .joinWait attempt) :
    (s.step stream o .elapsed k).phase = .joining (attempt + 1) := by
  unfold State.step
  rw [hp]

theorem step_rereads (ho : o.claimIdle = none) (hp : s.phase = .readWait) :
    (s.step stream o .elapsed k).Ended ∨
      (s.step stream o .elapsed k).At .reading s.pendingFrom := by
  unfold State.step
  rw [hp]
  exact round_cases ho _ k

/-- After a failed entry the pass over pending entries begins anew. -/
theorem step_retries (ho : o.claimIdle = none) (hp : s.phase = .retryWait) :
    (s.step stream o .elapsed k).Ended ∨ (s.step stream o .elapsed k).At .reading (some 0) := by
  unfold State.step
  rw [hp]
  exact round_cases ho _ k

theorem step_interrupted (hp : s.phase = .reading ∨ (∃ attempt, s.phase = .joinWait attempt) ∨
    s.phase = .readWait ∨ s.phase = .retryWait) : (s.step stream o .interrupted k).Ended := by
  unfold State.step
  rcases hp with hp | ⟨attempt, hp⟩ | hp | hp <;> rw [hp] <;> exact ended_finish _ _

/-! ## Rest -/

theorem resting_interruptible (s : State) (k : Outlook) {phase : Phase} (hr : phase.Resting) :
    (s.interruptible k phase).phase.Resting :=
  resting_of (interruptible_cases s k phase) hr

theorem resting_round (s : State) (o : Options) (k : Outlook) : (s.round o k).phase.Resting := by
  unfold State.round
  split
  · trivial
  · split
    · split
      · trivial
      · exact resting_interruptible _ _ trivial
    · exact resting_interruptible _ _ trivial

theorem resting_created {attempt : Nat} (hp : s.phase = .joining attempt)
    (r : Except StoreError Bool) : (s.step stream o (.created r) k).phase.Resting := by
  unfold State.step
  rw [hp]
  show (s.joined stream o k attempt r).phase.Resting
  unfold State.joined
  cases r with
  | ok fresh => exact resting_round _ _ _
  | error e =>
    simp only
    split
    · trivial
    · exact resting_interruptible _ _ trivial

theorem resting_waited
    (hp : (∃ attempt, s.phase = .joinWait attempt) ∨ s.phase = .readWait ∨ s.phase = .retryWait) :
    (s.step stream o .elapsed k).phase.Resting := by
  rcases hp with ⟨attempt, hp⟩ | hp | hp
  · rw [step_rejoins hp]
    trivial
  · unfold State.step
    rw [hp]
    exact resting_round _ _ _
  · unfold State.step
    rw [hp]
    exact resting_round _ _ _

/-- Entries that were read or claimed come to hand, from the first one on. -/
theorem entries_cases (hp : s.phase = .claiming ∨ s.phase = .reading)
    (r : Except StoreError (List Entry)) :
    (s.step stream o (.entries r) k).phase.Resting ∨ ∃ e rest claimed, r = .ok (e :: rest) ∧
      (s.step stream o (.entries r) k).phase = Batch.phase ⟨e, rest, claimed⟩ := by
  unfold State.step
  rcases hp with hp | hp <;> rw [hp]
  · rcases r with e | _ | ⟨e, rest⟩
    · exact Or.inl (resting_interruptible _ _ trivial)
    · exact Or.inl (resting_interruptible _ _ trivial)
    · exact Or.inr ⟨e, rest, true, rfl, (at_turnTo _ _).1⟩
  · rcases r with e | _ | ⟨e, rest⟩
    · simp only
      split
      · exact Or.inl (resting_interruptible _ _ trivial)
      · exact Or.inl trivial
    · exact Or.inl (resting_round _ _ _)
    · exact Or.inr ⟨e, rest, false, rfl, (at_turnTo _ _).1⟩

/-- After an acknowledged entry the next one of its batch comes to hand. -/
theorem acked_cases {b : Batch} (hp : s.phase = .acking b) (n : Nat) :
    (s.step stream o (.acked (.ok n)) k).phase.Resting ∨ ∃ next rest, b.rest = next :: rest ∧
      (s.step stream o (.acked (.ok n)) k).phase = Batch.phase ⟨next, rest, b.claimed⟩ := by
  unfold State.step
  rw [hp]
  show (s.advance o k b).phase.Resting ∨ ∃ next rest, b.rest = next :: rest ∧
    (s.advance o k b).phase = Batch.phase ⟨next, rest, b.claimed⟩
  unfold State.advance
  cases hrest : b.rest with
  | nil =>
    simp only
    split
    · exact Or.inl (resting_interruptible _ _ trivial)
    · exact Or.inl (resting_round _ _ _)
  | cons next rest => exact Or.inr ⟨next, rest, rfl, (at_turnTo _ _).1⟩

end LifecycleLog.Subscription
