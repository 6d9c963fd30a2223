-- Calls that go wrong. A fault either keeps a call from the store, or loses
-- the report of a call that took effect. Faults are planned by the kind of
-- call and its number.
import LifecycleLog.Cache.Things

namespace LifecycleLog

/-- The kinds of calls that faults are planned for. -/
inductive Method
  | get
  | set
  | delete
  | append
  | createGroup
  | readGroup
  | ack
  | claimIdle
  | pending
  deriving DecidableEq, Repr

def KeyCall.method : KeyCall → Method
  | .get _ => .get
  | .set _ _ => .set
  | .delete _ => .delete

def StreamCall.method : StreamCall → Method
  | .append _ _ => .append
  | .createGroup _ _ _ => .createGroup
  | .readGroup _ _ _ _ _ _ => .readGroup
  | .ack _ _ _ => .ack
  | .claimIdle _ _ _ _ _ => .claimIdle
  | .pending _ _ => .pending

inductive Fault
  /-- The call fails and never reaches the store. -/
  | refused (error : StoreError)
  /-- The call takes effect, and its caller gets the error. -/
  | unreported (error : StoreError)
  deriving DecidableEq, Repr

/-- What happens to a call under a fault, if there is one. -/
def Fault.apply {α σ : Type} : Option Fault → (σ → Except StoreError α × σ) → σ →
    Except StoreError α × σ
  | none, call, s => call s
  | some (.refused e), _, s => (.error e, s)
  | some (.unreported e), call, s => (.error e, (call s).2)

/-- The fault of the `number`-th call of a method, counted from 1; number 0
stands for every call that has no fault of its own. -/
structure PlannedFault where
  method : Method
  number : Nat
  fault : Fault
  deriving DecidableEq, Repr

abbrev FaultPlan : Type := List PlannedFault

namespace FaultPlan

def numbered (plan : FaultPlan) (m : Method) (n : Nat) : Option Fault :=
  (plan.find? (fun f => f.method = m && f.number = n)).map (·.fault)

def fault? (plan : FaultPlan) (m : Method) (n : Nat) : Option Fault :=
  (plan.numbered m n).or (plan.numbered m 0)

end FaultPlan

/-- A key call as it was made, and its failure. -/
structure KeyTrace where
  call : KeyCall
  error : Option StoreError
  deriving DecidableEq, Repr

/-- A state behind a plan of faults, with the calls made so far. -/
structure Watched (σ : Type) where
  state : σ
  made : List Method
  trace : List KeyTrace

namespace Watched

variable {σ : Type}

def of (s : σ) : Watched σ := ⟨s, [], []⟩

/-- The fault that the next call of a method meets. -/
def nextFault (w : Watched σ) (plan : FaultPlan) (m : Method) : Option Fault :=
  plan.fault? m (w.made.count m + 1)

/-- Answers a key call and writes it down. -/
def keyCall (b : Backend σ) (plan : FaultPlan) (c : KeyCall) (w : Watched σ) :
    KeyReply c × Watched σ :=
  let (reply, s) := Fault.apply (w.nextFault plan c.method) (b.keyCall c) w.state
  let error := match reply with
    | .ok _ => none
    | .error e => some e
  (reply, ⟨s, c.method :: w.made, w.trace ++ [⟨c, error⟩]⟩)

/-- Answers a stream call. -/
def streamCall (b : Backend σ) (plan : FaultPlan) (now : Nat) (c : StreamCall) (w : Watched σ) :
    Except StoreError c.Answer × Watched σ :=
  let (reply, s) := Fault.apply (w.nextFault plan c.method) (b.streamCall c now) w.state
  (reply, { w with state := s, made := c.method :: w.made })

/-- Answers a call of an identification, and counts those to the repository. -/
def identifyCall (b : Backend σ) (plan : FaultPlan) (repository : Repository) :
    (c : IdentifyCall) → Watched σ × Nat → IdentifyReply c × (Watched σ × Nat)
  | .store c, (w, asked) => ((w.keyCall b plan c).1, ((w.keyCall b plan c).2, asked))
  | .retrieve key, (w, asked) => (repository key, (w, asked + 1))

end Watched

end LifecycleLog
