-- A subscription at work on a store. Each move answers the request that the
-- loop makes: by a call that may meet a fault, by the handler, or by time that
-- passes. Between moves others may change the store.
import LifecycleLog.Faults
import LifecycleLog.Proofs.Store.Holdings
import LifecycleLog.Proofs.Subscription.Steps

namespace LifecycleLog

/-- The fault keeps the call from the store, and a retry may help. -/
def Fault.Passing : Fault → Prop
  | .refused e => e.isRetryable = true
  | .unreported _ => False

/-- Where a read of pending entries starts; `none` for a read of new ones. -/
def ReadMode.position : ReadMode → Option Nat
  | .new => none
  | .pending after => some after

/-- A call on a store that may meet a fault. -/
def Nested.attempt (fault : Option Fault) (c : StreamCall) (now : Nat) (st : Nested.Store) :
    Except StoreError c.Answer × Nested.Store :=
  Fault.apply fault (Nested.streamCall c now) st

namespace Nested

/-! ## Calls under faults -/

variable {fault : Option Fault} {c : StreamCall} {now : Nat} {st st' : Store}
  {r : Except StoreError c.Answer}

/-- A call that is answered took effect. -/
theorem attempt_ok {a : c.Answer} (h : attempt fault c now st = (.ok a, st')) :
    streamCall c now st = (.ok a, st') := by
  match fault with
  | none => exact h
  | some (.refused e) => cases h
  | some (.unreported e) => cases h

/-- Whatever is reported, the call took effect or it did not. -/
theorem attempt_effect (h : attempt fault c now st = (r, st')) :
    st' = st ∨ st' = (streamCall c now st).2 := by
  match fault with
  | none => exact Or.inr (congrArg Prod.snd h).symm
  | some (.refused e) => exact Or.inl (congrArg Prod.snd h).symm
  | some (.unreported e) => exact Or.inr (congrArg Prod.snd h).symm

theorem good_attempt (hs : st.Good) (h : attempt fault c now st = (r, st')) : st'.Good := by
  rcases attempt_effect h with rfl | rfl
  · exact hs
  · exact hs.streamCall c now

theorem held_attempt {stream group consumer : String} (hc : ¬ c.GivesTo stream group consumer)
    (h : attempt fault c now st = (r, st')) :
    (st'.held stream group consumer).Sublist (st.held stream group consumer) := by
  rcases attempt_effect h with rfl | rfl
  · exact .refl _
  · exact held_streamCall hc now st

theorem keys_attempt (h : attempt fault c now st = (r, st')) : st'.keys = st.keys := by
  rcases attempt_effect h with rfl | rfl
  · rfl
  · exact keys_streamCall c now st

theorem log_attempt {stream : String} (hc : c.adds stream = [])
    (h : attempt fault c now st = (r, st')) : st'.log stream = st.log stream := by
  rcases attempt_effect h with rfl | rfl
  · rfl
  · rw [log_streamCall, hc, List.append_nil]

/-- A read that fails leaves the store alone, if only passing faults occur. -/
theorem attempt_readGroup_error {stream group consumer : String} {mode : ReadMode} {count : Nat}
    {block : Span} {e : StoreError} (hf : ∀ f ∈ fault, f.Passing)
    (h : attempt fault (.readGroup stream group consumer mode count block) now st
      = (.error e, st')) : st' = st := by
  match fault with
  | none =>
    cases mode with
    | new => exact onGroup_error h
    | pending after => exact onGroup_error h
  | some (.refused e') => exact (congrArg Prod.snd h).symm
  | some (.unreported e') => exact (hf _ rfl).elim

end Nested

namespace Subscription

/-! ## Moves -/

/-- What a subscription did, and what came of it. -/
inductive Deed
  | create (result : Except StoreError Bool)
  | claim (result : Except StoreError (List Entry))
  | read (mode : ReadMode) (result : Except StoreError (List Entry))
  | handle (event : Event) (result : Except EventError Unit)
  | ack (id : Nat) (result : Except StoreError Nat)
  | wait
  | interrupt

/-- One move of a subscription. `Lost` says which faults its reads may meet;
all its other calls may meet any. -/
inductive Move (stream : String) (o : Options) (Lost : Fault → Prop) (st : Nested.Store)
    (s : State) : Deed → Nested.Store → State → Prop
  | create (fault : Option Fault) (now : Nat) (k : Outlook)
      (asked : s.request o = some .createGroup) {r st'}
      (call : Nested.attempt fault (.createGroup stream o.group o.start) now st = (r, st')) :
      Move stream o Lost st s (.create r) st' (s.step stream o (.created r) k)
  | claim (fault : Option Fault) (now : Nat) (k : Outlook) {minIdle : Span}
      (asked : s.request o = some (.claim minIdle)) {r st'}
      (call : Nested.attempt fault
        (.claimIdle stream o.group o.consumer minIdle o.batchSize) now st = (r, st')) :
      Move stream o Lost st s (.claim r) st' (s.step stream o (.entries r) k)
  | read (fault : Option Fault) (now : Nat) (k : Outlook) {mode : ReadMode} {block : Span}
      (asked : s.request o = some (.read mode block)) (lost : ∀ f ∈ fault, Lost f) {r st'}
      (call : Nested.attempt fault
        (.readGroup stream o.group o.consumer mode o.batchSize block) now st = (r, st')) :
      Move stream o Lost st s (.read mode r) st' (s.step stream o (.entries r) k)
  /-- A read for new entries waits in vain. -/
  | readNothing (k : Outlook) {block : Span} (asked : s.request o = some (.read .new block)) :
      Move stream o Lost st s (.read .new (.ok [])) st (s.step stream o (.entries (.ok [])) k)
  | handle (k : Outlook) {event : Event} (asked : s.request o = some (.handle event))
      (r : Except EventError Unit) :
      Move stream o Lost st s (.handle event r) st (s.step stream o (.handled r) k)
  | ack (fault : Option Fault) (now : Nat) (k : Outlook) {id : Nat}
      (asked : s.request o = some (.ack id)) {r st'}
      (call : Nested.attempt fault (.ack stream o.group [id]) now st = (r, st')) :
      Move stream o Lost st s (.ack id r) st' (s.step stream o (.acked r) k)
  | wait (k : Outlook) {delay : Span} (asked : s.request o = some (.wait delay)) :
      Move stream o Lost st s .wait st (s.step stream o .elapsed k)
  /-- A signal ends a read or a wait. -/
  | interrupt (k : Outlook)
      (asked : (∃ mode block, s.request o = some (.read mode block)) ∨
        ∃ delay, s.request o = some (.wait delay)) :
      Move stream o Lost st s .interrupt st (s.step stream o .interrupted k)

/-! ## What a request says of the state -/

/-- The states that make a request. -/
def Request.MadeIn (s : State) (o : Options) : Request → Prop
  | .createGroup => ∃ attempt, s.phase = .joining attempt
  | .claim minIdle => s.phase = .claiming ∧ o.claimIdle = some minIdle
  | .read mode _ => s.phase = .reading ∧ s.pendingFrom = mode.position
  | .handle event => ∃ batch, s.phase = .handling event batch
  | .ack id => ∃ batch, s.phase = .acking batch ∧ batch.entry.id = id
  | .wait _ => (∃ attempt, s.phase = .joinWait attempt) ∨ s.phase = .readWait ∨ s.phase = .retryWait

theorem madeIn_of_request {s : State} {o : Options} {q : Request} (h : s.request o = some q) :
    q.MadeIn s o := by
  unfold State.request at h
  split at h
  case h_1 attempt hp =>
    cases h
    exact ⟨attempt, hp⟩
  case h_2 attempt hp =>
    cases h
    exact Or.inl ⟨attempt, hp⟩
  case h_3 hp =>
    obtain ⟨minIdle, hm, rfl⟩ := Option.map_eq_some_iff.1 h
    exact ⟨hp, hm⟩
  case h_4 hp =>
    unfold State.readRequest at h
    split at h
    · rename_i after hf
      cases h
      exact ⟨hp, hf⟩
    · rename_i hf
      cases h
      exact ⟨hp, hf⟩
  case h_5 hp =>
    cases h
    exact Or.inr (Or.inl hp)
  case h_6 event batch hp =>
    cases h
    exact ⟨batch, hp⟩
  case h_7 batch hp =>
    cases h
    exact ⟨batch, hp, rfl⟩
  case h_8 hp =>
    cases h
    exact Or.inr (Or.inr hp)
  case h_9 => cases h

/-- A loop that has no time for claims makes none. -/
theorem request_ne_claim {s : State} {o : Options} (ho : o.claimIdle = none) (minIdle : Span) :
    s.request o ≠ some (.claim minIdle) := by
  intro asked
  have hclaims := (madeIn_of_request asked).2
  rw [ho] at hclaims
  cases hclaims

/-- A signal that finds the loop at a read or a wait ends it. -/
theorem ended_of_signal {stream : String} {o : Options} {s : State} {k : Outlook}
    (asked : (∃ mode block, s.request o = some (.read mode block)) ∨
      ∃ delay, s.request o = some (.wait delay)) : (s.step stream o .interrupted k).Ended := by
  apply step_interrupted
  rcases asked with ⟨mode, block, hq⟩ | ⟨delay, hq⟩
  · exact Or.inl (madeIn_of_request hq).1
  · exact Or.inr (madeIn_of_request hq)

end Subscription

end LifecycleLog
