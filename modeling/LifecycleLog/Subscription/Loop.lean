-- The loop of a subscription. A subscription is one consumer of a group. It
-- goes through its own pending entries first, then waits for new ones. It
-- handles and acknowledges entries one at a time, in order. After a failure
-- it reads nothing new until a pass over its pending entries has drained.
--
-- The loop is a state and a step: a state asks for one thing, and the step
-- takes the reply. Between a reply and the next request no time passes.
import LifecycleLog.Event.Error
import LifecycleLog.Subscription.Options

namespace LifecycleLog.Subscription

/-! ## States -/

/-- The entries of one read or one claim that are left; `entry` comes next. -/
structure Batch where
  entry : Entry
  rest : List Entry
  claimed : Bool
  deriving DecidableEq

inductive Phase
  /-- The group is being set up, for the given time. -/
  | joining (attempt : Nat)
  | joinWait (attempt : Nat)
  | claiming
  | reading
  /-- A failed read is waited off. -/
  | readWait
  | handling (event : Event) (batch : Batch)
  | acking (batch : Batch)
  /-- A failed entry is waited off. -/
  | retryWait
  | finished (result : Except EventError Unit)

structure State where
  phase : Phase
  /-- Where the pass over pending entries stands; `none` while reading new ones. -/
  pendingFrom : Option Nat
  /-- When idle entries are claimed next. -/
  nextClaim : Option Nat
  readFailures : Nat
  handlerFailures : Nat

def State.start : State := ⟨.joining 1, some 0, none, 0, 0⟩

/-- What the loop asks for. -/
inductive Request
  | createGroup
  | claim (minIdle : Span)
  | read (mode : ReadMode) (block : Span)
  | handle (event : Event)
  | ack (id : Nat)
  | wait (delay : Span)
  deriving DecidableEq

/-- What it gets. Reads and waits may be interrupted. -/
inductive Reply
  | created (result : Except StoreError Bool)
  | entries (result : Except StoreError (List Entry))
  | handled (result : Except EventError Unit)
  | acked (result : Except StoreError Nat)
  | elapsed
  | interrupted

/-- What the loop sees outside: the time, whether its owner has signalled at
all, and whether the signal says to stop. -/
structure Outlook where
  now : Nat
  signalled : Bool
  stopped : Bool

/-! ## Requests -/

/-- The wait before a failed entry is tried again. -/
def retryDelay (o : Options) (failures : Nat) : Span :=
  (o.backoff.delay failures).shorter o.pendingRetry

/-- A pass over pending entries never waits. -/
def State.readRequest (s : State) (o : Options) : Request :=
  match s.pendingFrom with
  | some after => .read (.pending after) Span.zero
  | none => .read .new o.block

def State.request (s : State) (o : Options) : Option Request :=
  match s.phase with
  | .joining _ => some .createGroup
  | .joinWait attempt => some (.wait (o.backoff.delay attempt))
  | .claiming => o.claimIdle.map .claim
  | .reading => some (s.readRequest o)
  | .readWait => some (.wait (o.backoff.delay s.readFailures))
  | .handling event _ => some (.handle event)
  | .acking batch => some (.ack batch.entry.id)
  | .retryWait => some (.wait (retryDelay o s.handlerFailures))
  | .finished _ => none

/-! ## Steps -/

def State.finish (s : State) (result : Except EventError Unit) : State :=
  { s with phase := .finished result }

/-- Starts something that a signal interrupts; one that came before ends the
loop at once. -/
def State.interruptible (s : State) (k : Outlook) (phase : Phase) : State :=
  if k.signalled then s.finish (.ok ()) else { s with phase }

/-- One round of the loop: stop, claim if that is due, or read. -/
def State.round (s : State) (o : Options) (k : Outlook) : State :=
  if k.stopped then s.finish (.ok ())
  else
    match o.claimIdle, s.nextClaim with
    | some idle, some due =>
      if due ≤ k.now then { s with phase := .claiming, nextClaim := some (k.now + idle.nanos) }
      else s.interruptible k .reading
    | _, _ => s.interruptible k .reading

/-- Turns to the next entry. One that is no event needs no handler. -/
def State.turnTo (s : State) (batch : Batch) : State :=
  match Event.decode batch.entry.fields with
  | .ok (some event) => { s with phase := .handling event batch }
  | _ => { s with phase := .acking batch }

/-- A failed entry holds all later ones back. -/
def State.holdBack (s : State) (k : Outlook) : State :=
  { s with handlerFailures := Backoff.count s.handlerFailures }.interruptible k .retryWait

/-- Goes on after an acknowledged entry. -/
def State.advance (s : State) (o : Options) (k : Outlook) (batch : Batch) : State :=
  match batch.rest with
  | next :: rest => s.turnTo { batch with entry := next, rest }
  | [] =>
    if batch.claimed then s.interruptible k .reading
    else { s with handlerFailures := 0 }.round o k

/-- Takes the entries of a read. -/
def State.take (s : State) (o : Options) (k : Outlook) (entries : List Entry) : State :=
  match entries with
  | [] => { s with pendingFrom := none }.round o k
  | entry :: rest =>
    let last := rest.getLastD entry
    { s with pendingFrom := s.pendingFrom.map (fun _ => last.id) }.turnTo ⟨entry, rest, false⟩

def State.joined (s : State) (stream : String) (o : Options) (k : Outlook) (attempt : Nat) :
    Except StoreError Bool → State
  | .ok _ =>
    { s with
      pendingFrom := some 0
      nextClaim := o.claimIdle.map (fun (idle : Span) => k.now + idle.nanos)
      readFailures := 0
      handlerFailures := 0 }.round o k
  | .error e =>
    if !e.isRetryable || o.connectAttempts ≤ attempt then s.finish (.error (.subscribe stream e))
    else s.interruptible k (.joinWait attempt)

/-- Takes a reply. A reply to some other request changes nothing. -/
def State.step (stream : String) (o : Options) (s : State) (r : Reply) (k : Outlook) : State :=
  match s.phase, r with
  | .joining attempt, .created result => s.joined stream o k attempt result
  | .joinWait attempt, .elapsed => { s with phase := .joining (attempt + 1) }
  | .claiming, .entries (.ok (entry :: rest)) => s.turnTo ⟨entry, rest, true⟩
  | .claiming, .entries _ => s.interruptible k .reading
  | .reading, .entries (.ok entries) => { s with readFailures := 0 }.take o k entries
  | .reading, .entries (.error e) =>
    if e.isRetryable then
      { s with readFailures := Backoff.count s.readFailures }.interruptible k .readWait
    else s.finish (.error (.read stream e))
  | .readWait, .elapsed => s.round o k
  | .handling _ batch, .handled (.ok _) => { s with phase := .acking batch }
  | .handling _ _, .handled (.error _) => s.holdBack k
  | .acking batch, .acked (.ok _) => s.advance o k batch
  | .acking _, .acked (.error _) => s.holdBack k
  | .retryWait, .elapsed => { s with pendingFrom := some 0 }.round o k
  | .joinWait _, .interrupted => s.finish (.ok ())
  | .reading, .interrupted => s.finish (.ok ())
  | .readWait, .interrupted => s.finish (.ok ())
  | .retryWait, .interrupted => s.finish (.ok ())
  | _, _ => s

end LifecycleLog.Subscription
