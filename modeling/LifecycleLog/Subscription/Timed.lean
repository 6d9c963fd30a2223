-- Runs of one subscription in virtual time. A run holds the store, the
-- subscription and what it is waiting for; a timeline of outside actions is
-- played against it. Code takes no time. Time passes only while everything
-- waits, and whatever is due together happens before the subscription wakes.
import LifecycleLog.Errand
import LifecycleLog.Faults
import LifecycleLog.Projection
import LifecycleLog.Subscription.Loop

namespace LifecycleLog.Subscription

/-! ## The handler -/

/-- How the handling of an entity is to fail. -/
inductive Refusal
  | times (count : Nat)
  | always
  | breakDown
  deriving DecidableEq, Repr

/-- What a refusal does this time: whether it fails, and what is left of it. -/
inductive Verdict
  | accept
  | refuse
  | breakDown
  deriving DecidableEq, Repr

abbrev Refusals : Type := Table String Refusal

def Refusals.judge (refusals : Refusals) (key : String) : Verdict × Refusals :=
  match refusals.get? key with
  | none => (.accept, refusals)
  | some (.times 0) => (.accept, refusals)
  | some (.times (n + 1)) => (.refuse, refusals.insert key (.times n))
  | some .always => (.refuse, refusals)
  | some .breakDown => (.breakDown, refusals)

/-- What a refusal is looked up by: the entity, or the tag of a connection. -/
def refusalKey (event : Event) : String :=
  match event.entity? with
  | some (_, id) => id
  | none => event.tag.text

/-! ## Runs -/

/-- What a run is about. `routes` is the projection that events go on to, if
any. `claimable` says whether pending entries pass for idle. -/
structure Setting (σ : Type) where
  backend : Backend σ
  stream : String
  options : Options
  faults : FaultPlan
  claimable : Bool
  handlerDelay : Nat
  routes : Option RouteClasses

inductive Activity
  /-- About to make its next request. -/
  | ready
  /-- In a read that began at `since` and waits. -/
  | reading (since : Nat) (vigil : Vigil)
  | sleeping (wake : Nat)
  | handling (wake : Nat) (event : Event)
  deriving DecidableEq, Repr

/-- What a run writes down; `ρ` is the result of an outside action. -/
inductive Record (ρ : Type)
  | created (start finish : Nat) (result : Except StoreError Bool)
  | read (mode : ReadMode) (block : Span) (start finish : Nat)
      (result : Except StoreError (List Entry))
  | claimed (minIdle : Span) (start finish : Nat) (result : Except StoreError (List Entry))
  | acked (id start finish : Nat) (result : Except StoreError Nat)
  | keyCall (trace : KeyTrace) (moment : Nat)
  | handling (event : Event) (moment : Nat)
  | action (name : String) (moment : Nat) (result : ρ)

/-- What the owner of a subscription still has. -/
inductive Owner
  /-- The means to signal, and the task to wait for. -/
  | inCharge
  /-- Only the task to wait for. -/
  | waiting
  | gone
  deriving DecidableEq, Repr

structure Run (σ ρ : Type) where
  now : Nat
  watched : Watched σ
  state : State
  activity : Activity
  owner : Owner
  /-- Whether the owner has signalled, or given up the means to. -/
  signalled : Bool
  /-- Whether the last signal says to stop. -/
  stopped : Bool
  refusals : Refusals
  log : List (Record ρ)

variable {σ ρ : Type}

namespace Run

def start (now : Nat) (s : σ) (refusals : Refusals) : Run σ ρ where
  now := now
  watched := Watched.of s
  state := .start
  activity := .ready
  owner := .inCharge
  signalled := false
  stopped := false
  refusals := refusals
  log := []

def write (r : Run σ ρ) (entry : Record ρ) : Run σ ρ := { r with log := r.log ++ [entry] }

def outlook (r : Run σ ρ) : Outlook := ⟨r.now, r.signalled, r.stopped⟩

def isOver (r : Run σ ρ) : Bool :=
  match r.state.phase with
  | .finished _ => true
  | _ => false

/-- Gives the subscription its reply. -/
def reply (x : Setting σ) (r : Run σ ρ) (answer : Reply) : Run σ ρ :=
  { r with state := r.state.step x.stream x.options answer r.outlook, activity := .ready }

/-- Makes a stream call for the subscription. The clock of the store stands
still, and claims ask for no idle time or for more than any entry has. -/
def streamCall (x : Setting σ) (r : Run σ ρ) (c : StreamCall) :
    Except StoreError c.Answer × Run σ ρ :=
  let (answer, watched) := r.watched.streamCall x.backend x.faults 0 c
  (answer, { r with watched })

/-! ## Reads -/

/-- Ends a read with its result. -/
def endRead (x : Setting σ) (r : Run σ ρ) (since : Nat) (result : Except StoreError (List Entry)) :
    Run σ ρ :=
  match r.state.readRequest x.options with
  | .read mode block =>
    (r.write (.read mode block since r.now result)).reply x (.entries result)
  | _ => r

def onStore {α : Type} (act : σ → α × σ) : Run σ ρ → α × Run σ ρ :=
  onPart (·.watched.state) (fun s r => { r with watched := { r.watched with state := s } }) act

/-- Lets the reader of a read that waits look for entries. -/
def look (x : Setting σ) (r : Run σ ρ) (since : Nat) (vigil : Vigil) : Run σ ρ :=
  let o := x.options
  let c := StreamCall.readGroup x.stream o.group o.consumer .new o.batchSize o.block
  match vigil.look (fun r => x.backend.entryCount r.watched.state)
      (onStore (x.backend.streamCall c 0)) r.now r with
  | (some result, _, r) => r.endRead x since result
  | (none, vigil, r) => { r with activity := .reading since vigil }

/-- Begins a read. One that finds nothing new goes on to wait. -/
def beginRead (x : Setting σ) (r : Run σ ρ) (mode : ReadMode) (block : Span) : Run σ ρ :=
  let o := x.options
  let c := StreamCall.readGroup x.stream o.group o.consumer mode o.batchSize block
  match mode, r.streamCall x c with
  | .new, (.ok [], r') =>
    if block.nanos = 0 then r'.endRead x r.now (.ok [])
    else
      let seen := x.backend.entryCount r'.watched.state
      { r' with activity := .reading r.now ⟨r.now + block.nanos, some seen⟩ }
  | _, (result, r') => r'.endRead x r.now result

/-! ## Handling -/

/-- Runs a projection for the handler and writes its key calls down. -/
def project (x : Setting σ) (r : Run σ ρ) (routes : RouteClasses) (event : Event) :
    Except EventError Unit × Run σ ρ :=
  let watched := { r.watched with trace := [] }
  let (result, watched') :=
    (Projection.handle routes event).run (Watched.keyCall x.backend x.faults) watched
  let entries := watched'.trace.map (fun t => Record.keyCall t r.now)
  (result, { r with watched := watched', log := r.log ++ entries })

/-- What the handler does once its delay is over. -/
def finishHandling (x : Setting σ) (r : Run σ ρ) (event : Event) : Run σ ρ :=
  let key := refusalKey event
  let (verdict, refusals) := r.refusals.judge key
  let r := { r with refusals }
  match verdict with
  | .breakDown => { r with state := r.state.finish (.error .task), activity := .ready }
  | .refuse => r.reply x (.handled (.error (.handler s!"refusing {key}")))
  | .accept =>
    match x.routes with
    | none => r.reply x (.handled (.ok ()))
    | some routes =>
      let (result, r') := r.project x routes event
      r'.reply x (.handled result)

/-! ## Moves -/

/-- Makes the next request of the subscription. -/
def move (x : Setting σ) (r : Run σ ρ) : Run σ ρ :=
  let o := x.options
  match r.state.request o with
  | none => r
  | some .createGroup =>
    let (result, r') := r.streamCall x (.createGroup x.stream o.group o.start)
    (r'.write (.created r.now r.now result)).reply x (.created result)
  | some (.claim minIdle) =>
    let asked := if x.claimable then Span.zero else Span.longest
    let (result, r') := r.streamCall x (.claimIdle x.stream o.group o.consumer asked o.batchSize)
    (r'.write (.claimed minIdle r.now r.now result)).reply x (.entries result)
  | some (.read mode block) => r.beginRead x mode block
  | some (.ack id) =>
    let (result, r') := r.streamCall x (.ack x.stream o.group [id])
    (r'.write (.acked id r.now r.now result)).reply x (.acked result)
  | some (.handle event) =>
    let r' := r.write (.handling event r.now)
    if x.handlerDelay = 0 then r'.finishHandling x event
    else { r' with activity := .handling (r.now + x.handlerDelay) event }
  | some (.wait delay) =>
    if delay.nanos = 0 then r.reply x .elapsed
    else { r with activity := .sleeping (r.now + delay.nanos) }

/-- When the activity ends by itself. -/
def due? (r : Run σ ρ) : Option Nat :=
  match r.activity with
  | .ready => if r.isOver then none else some r.now
  | .reading _ vigil => some vigil.deadline
  | .sleeping wake => some wake
  | .handling wake _ => some wake

/-- Ends the activity at the present moment. -/
def fire (x : Setting σ) (r : Run σ ρ) : Run σ ρ :=
  match r.activity with
  | .ready => r.move x
  | .reading since _ => r.endRead x since (.ok [])
  | .sleeping _ => r.reply x .elapsed
  | .handling _ event => r.finishHandling x event

/-- Lets the subscription go on until it would have to wait up to `moment` or
longer; `none` for no limit. `fuel` bounds the steps. -/
def advance (x : Setting σ) (moment : Option Nat) : (fuel : Nat) → Run σ ρ → Run σ ρ
  | 0, r => r
  | fuel + 1, r =>
    match r.due? with
    | none => r
    | some due =>
      let inTime : Bool := match moment with
        | none => true
        | some m => due < m || (r.activity = .ready && due ≤ m)
      if inTime then advance x moment fuel ({ r with now := max r.now due }.fire x) else r

/-- Wakes the subscription after something happened outside: a signal comes
first, then an append. -/
def wake (x : Setting σ) (r : Run σ ρ) : Run σ ρ :=
  match r.activity with
  | .reading since vigil => if r.signalled then r.reply x .interrupted else r.look x since vigil
  | .sleeping _ => if r.signalled then r.reply x .interrupted else r
  | _ => r

/-- The time of a run. The subscription wakes and goes on when all else waits. -/
def clock (x : Setting σ) (fuel : Nat) : Clock (Run σ ρ) where
  now r := r.now
  appended r := x.backend.entryCount r.watched.state
  settle r := { (r.wake x).advance x (some (r.now + 1)) fuel with now := r.now }
  pass moment r := { (r.wake x).advance x (some moment) fuel with now := moment }

/-! ## The owner -/

/-- Signals to stop, or not to, if the owner still can. -/
def signal (stop : Bool) (r : Run σ ρ) : Run σ ρ :=
  match r.owner with
  | .inCharge => { r with signalled := true, stopped := stop }
  | _ => r

/-- Gives up the means to signal, which wakes the subscription too, and the
task as well unless it is kept. -/
def abandon (keep : Bool) (r : Run σ ρ) : Run σ ρ :=
  { r with signalled := true, owner := if keep then .waiting else .gone }

/-- What the owner knows about the end of the task. -/
def knownOver (r : Run σ ρ) : Option Bool :=
  match r.owner with
  | .gone => none
  | _ => some r.isOver

end Run

/-! ## Timelines -/

/-- What is done to a run from outside. -/
inductive Action (σ ρ : Type)
  /-- Signals the subscription to stop. -/
  | cancel
  /-- Signals, but not to stop. -/
  | nudge
  /-- Gives the subscription up, and the task with it unless that is kept. -/
  | abandon (keep : Bool)
  | isOver
  | refuse (key : String) (refusal : Option Refusal)
  /-- Something done to the store. -/
  | store (errand : Errand σ ρ)

/-- An action as an errand; the results are words for nothing and for what the
owner knows about the end. -/
def Action.errand (nothing : ρ) (known : Option Bool → ρ) : Action σ ρ → Errand (Run σ ρ) ρ
  | .cancel => .act (fun r => (nothing, r.signal true))
  | .nudge => .act (fun r => (nothing, r.signal false))
  | .abandon keep => .act (fun r => (nothing, r.abandon keep))
  | .isOver => .act (fun r => (known r.knownOver, r))
  | .refuse key none => .act (fun r => (nothing, { r with refusals := r.refusals.erase key }))
  | .refuse key (some refusal) =>
    .act (fun r => (nothing, { r with refusals := r.refusals.insert key refusal }))
  | .store errand =>
    errand.within (·.watched.state) (fun s r => { r with watched := { r.watched with state := s } })

/-- A named action at a moment of the run. -/
structure TimedAction (σ ρ : Type) where
  due : Nat
  name : String
  action : Action σ ρ

/-- The actions as errands that are written down when they are done. -/
def agenda (nothing : ρ) (known : Option Bool → ρ) (timeline : List (TimedAction σ ρ)) :
    Agenda (Run σ ρ) ρ :=
  .ofList (timeline.map (fun a => (a.due, (a.action.errand nothing known).noted (fun result r =>
    r.write (.action a.name r.now result)))))

/-- How a run ended: whether it was over by itself, its result, and when. -/
structure Ending (σ ρ : Type) where
  run : Run σ ρ
  /-- `none` if nobody waited for it. -/
  wasOver : Option Bool
  result : Option (Except EventError Unit)
  stoppedAt : Nat

/-- Stops a run and waits for its end, unless nobody does. -/
def Run.stop (x : Setting σ) (fuel : Nat) (r : Run σ ρ) : Ending σ ρ :=
  match r.owner with
  | .gone => ⟨r, none, none, r.now⟩
  | _ =>
    let wasOver := r.knownOver
    let r := ((r.signal true).wake x).advance x none fuel
    match r.state.phase with
    | .finished result => ⟨r, wasOver, some result, r.now⟩
    | _ => ⟨r, wasOver, none, r.now⟩

/-- Plays an agenda, lets the run go on to `moment`, then stops it. -/
def Run.runTo (x : Setting σ) (fuel moment : Nat) (agenda : Agenda (Run σ ρ) ρ) (r : Run σ ρ) :
    Ending σ ρ :=
  let c := Run.clock x fuel
  let (_, scene) := agenda.perform c 0 ⟨[], r⟩
  (scene.sleepUntil c moment).world.stop x fuel

end LifecycleLog.Subscription
