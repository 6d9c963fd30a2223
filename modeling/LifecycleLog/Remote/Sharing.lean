-- One client shared by calls that run at the same time. A call takes a
-- connection for itself, sends its request, and puts the connection back when
-- it has read the response. A call that fails or is given up in between drops
-- its connection. The moves of different calls come in any order.
import LifecycleLog.Remote.Client

namespace LifecycleLog.Remote

/-- A call under way, with the connection it holds. -/
structure Exchange (ρ : Type) where
  call : Call
  link : Link ρ
  sent : Bool

/-- A call with its result. -/
structure Answered where
  call : Call
  result : Except StoreError call.Answer

/-- A client, the calls under way on it by their numbers, and the calls that
have their results, the first one first. -/
structure Sharing (τ ρ : Type) where
  session : Session τ ρ
  exchanges : Table Nat (Exchange ρ)
  answered : List (Nat × Answered)

/-- What a call does, or what happens to it. -/
inductive Move
  | start (number : Nat) (call : Call)
  | send (number : Nat)
  | receive (number : Nat)
  /-- The connection fails, or the time is up. -/
  | fail (number : Nat) (cause : String)
  /-- The caller gives the call up. -/
  | cancel (number : Nat)
  deriving DecidableEq

namespace Sharing

variable {τ ρ : Type}

/-- A client with no call under way. -/
def ofSession (session : Session τ ρ) : Sharing τ ρ := ⟨session, ∅, []⟩

/-- Ends a call, whose connection is no longer its own. -/
def finish (n : Nat) (c : Call) (outcome : Except StoreError c.Answer × Session τ ρ)
    (x : Sharing τ ρ) : Sharing τ ρ where
  session := outcome.2
  exchanges := x.exchanges.erase n
  answered := x.answered ++ [(n, ⟨c, outcome.1⟩)]

/-- Takes a connection for a new call. -/
def start (p : Peer τ ρ) (n : Nat) (c : Call) (x : Sharing τ ρ) : Sharing τ ρ :=
  match x.session.connection p with
  | (.error e, session) => x.finish n c (.error e, session)
  | (.ok link, session) => { x with session, exchanges := x.exchanges.insert n ⟨c, link, false⟩ }

/-- Sends the request of a call. -/
def send (p : Peer τ ρ) (n : Nat) (e : Exchange ρ) (x : Sharing τ ρ) : Sharing τ ρ :=
  match Wire.frame (Wire.encodeRequest e.call) with
  | .error cause => x.finish n e.call (x.session.broken e.call cause.message)
  | .ok bytes =>
    let (link, session) := x.session.send p bytes e.link
    { x with session, exchanges := x.exchanges.insert n ⟨e.call, link, true⟩ }

/-- Makes a move. One that is not open to the call changes nothing. -/
def step (p : Peer τ ρ) (m : Move) (x : Sharing τ ρ) : Sharing τ ρ :=
  match m with
  | .start n c => if x.exchanges.contains n then x else x.start p n c
  | .send n =>
    match x.exchanges.get? n with
    | some e => if e.sent then x else x.send p n e
    | none => x
  | .receive n =>
    match x.exchanges.get? n with
    | some e => if e.sent then x.finish n e.call (x.session.receive e.call e.link) else x
    | none => x
  | .fail n cause =>
    match x.exchanges.get? n with
    | some e => x.finish n e.call (x.session.broken e.call cause)
    | none => x
  | .cancel n => { x with exchanges := x.exchanges.erase n }

/-- Makes moves one after the other. -/
def run (p : Peer τ ρ) (moves : List Move) (x : Sharing τ ρ) : Sharing τ ρ :=
  moves.foldl (fun x m => x.step p m) x

end Sharing

end LifecycleLog.Remote
