-- The client of a store server. Connections are opened when a call needs one
-- and kept for later calls. A call sends its request and reads one response.
-- Whatever goes wrong on the way, the connection is dropped, and with it all
-- that are kept, for they likely share the failure; the call fails as one
-- worth a retry.
import LifecycleLog.Wire.Frame
import LifecycleLog.Wire.Wording

namespace LifecycleLog.Remote

/-! ## The other side -/

/-- What the other side does when bytes reach it: what it sends, and whether
it closes the connection then. -/
structure Reaction where
  sent : List UInt8
  closes : Bool
  deriving DecidableEq, Repr

/-- The other side of a client: `τ` is all it holds, `ρ` what it holds for one
connection. -/
structure Peer (τ ρ : Type) where
  /-- Opens a connection, or says why there is none. -/
  connect : τ → Except String ρ × τ
  receive : List UInt8 → ρ → τ → Reaction × ρ × τ

/-- A connection: what came in and is not read yet, whether the other side
has closed it, and the other side's part. -/
structure Link (ρ : Type) where
  incoming : List UInt8
  closed : Bool
  peer : ρ

def Link.fresh {ρ : Type} (peer : ρ) : Link ρ := ⟨[], false, peer⟩

/-- Why there is no connection. -/
inductive ConnectFault
  | unreachable
  | refused
  deriving DecidableEq, Repr

def ConnectFault.message : ConnectFault → String
  | .unreachable => "Network is unreachable (os error 101)"
  | .refused => "Connection refused (os error 111)"

/-! ## Calls -/

/-- A client: its server's address, the connections it keeps, the latest
first, and the other side. -/
structure Session (τ ρ : Type) where
  address : String
  kept : List (Link ρ)
  world : τ

variable {τ ρ : Type}

namespace Session

/-- The error of a call that got no response. -/
def unavailable (x : Session τ ρ) (cause : String) : StoreError :=
  .unavailable s!"store server {x.address}: {cause}"

/-- Drops all kept connections and fails a call. -/
def broken {α : Type} (x : Session τ ρ) (c : Call) (cause : String) :
    Except StoreError α × Session τ ρ :=
  (.error (x.unavailable s!"{c.name}: {cause}"), { x with kept := [] })

/-- Takes the latest kept connection, or opens one. -/
def connection (p : Peer τ ρ) (x : Session τ ρ) : Except StoreError (Link ρ) × Session τ ρ :=
  match x.kept with
  | link :: rest => (.ok link, { x with kept := rest })
  | [] =>
    match p.connect x.world with
    | (.ok peer, world) => (.ok (.fresh peer), { x with world })
    | (.error cause, world) => (.error (x.unavailable cause), { x with world })

/-- Sends bytes and takes in what comes back. -/
def send (p : Peer τ ρ) (bytes : List UInt8) (link : Link ρ) (x : Session τ ρ) :
    Link ρ × Session τ ρ :=
  let (reaction, peer, world) := p.receive bytes link.peer x.world
  (⟨link.incoming ++ reaction.sent, link.closed || reaction.closes, peer⟩, { x with world })

/-- What a response says to the caller. One that answers some other call is an
error of the server. -/
def verdict (c : Call) (response : Wire.Response) : Except StoreError c.Answer :=
  match response with
  | .failure failure => .error failure.toError
  | response =>
    match response.answer? c with
    | some answer => .ok answer
    | none => .error (.remote s!"unexpected response to {c.name}: {response.wording}")

/-- Reads the response to a call. Bytes that are still missing on an open
connection never come. -/
def receive (c : Call) (link : Link ρ) (x : Session τ ρ) :
    Except StoreError c.Answer × Session τ ρ :=
  match Wire.readFrame Wire.decodeResponse link.incoming with
  | (.ok response, rest) =>
    (verdict c response, { x with kept := { link with incoming := rest } :: x.kept })
  | (.error (.io fault), _) =>
    x.broken c (if link.closed then (StoreError.io fault).message else "request timed out")
  | (.error e, _) => x.broken c e.message

/-- Makes a call. -/
def call (p : Peer τ ρ) (c : Call) (x : Session τ ρ) : Except StoreError c.Answer × Session τ ρ :=
  match x.connection p with
  | (.error e, x) => (.error e, x)
  | (.ok link, x) =>
    match Wire.frame (Wire.encodeRequest c) with
    | .error e => x.broken c e.message
    | .ok bytes =>
      let (link, x) := x.send p bytes link
      x.receive c link

end Session

end LifecycleLog.Remote
