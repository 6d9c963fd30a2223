-- A store server. It answers the requests of each connection one after the
-- other, against one store. Bytes that are no request, and a response that
-- fits no frame, end the connection; the store stays as it is by then.
import LifecycleLog.Remote.Client

namespace LifecycleLog.Remote

variable {σ : Type}

/-- Answers the body of a request; no frame if the connection is to end. -/
def answerBody (b : Backend σ) (now : Nat) (body : List UInt8) (s : σ) :
    Option (List UInt8) × σ :=
  match Wire.decodeBody Wire.decodeRequest body with
  | .error _ => (none, s)
  | .ok c =>
    let (result, s) := b.call now c s
    match Wire.frame (Wire.encodeResponse (.ofResult c result)) with
    | .ok bytes => (some bytes, s)
    | .error _ => (none, s)

/-- What a server did with the bytes of a connection: the frames it sent,
whether it closed, the bytes that are no whole request yet, and the store. -/
structure Served (σ : Type) where
  frames : List (List UInt8)
  closed : Bool
  unread : List UInt8
  store : σ

/-- Answers all whole requests among the bytes. `ended` says that no more
bytes come, so that the server closes when it has read them. -/
def serve (b : Backend σ) (now : Nat) (ended : Bool) (bytes : List UInt8) (s : σ) : Served σ :=
  match h : Wire.takeFrame bytes with
  | (.error (.io _), _) => ⟨[], ended, bytes, s⟩
  | (.error _, _) => ⟨[], true, [], s⟩
  | (.ok body, rest) =>
    have := Wire.takeFrame_rest_lt h
    match answerBody b now body s with
    | (none, s) => ⟨[], true, [], s⟩
    | (some frame, s) =>
      let served := serve b now ended rest s
      { served with frames := frame :: served.frames }
termination_by bytes.length

/-- Whether clients can reach servers at all. -/
inductive Network
  | reachable
  | unreachable
  deriving DecidableEq, Repr

/-- A server as the other side of a client; for each connection it keeps the
bytes that are no whole request yet. -/
def serverPeer (n : Network) (b : Backend σ) (now : Nat) : Peer σ (List UInt8) where
  connect s := match n with
    | .reachable => (.ok [], s)
    | .unreachable => (.error ConnectFault.unreachable.message, s)
  receive bytes unread s :=
    let served := serve b now false (unread ++ bytes) s
    (⟨served.frames.flatten, served.closed⟩, served.unread, served.store)

/-- A client and its server as one store. -/
def backend (n : Network) (b : Backend σ) (address : String) :
    Backend (Session σ (List UInt8)) where
  empty := ⟨address, [], b.empty⟩
  keyCall c x := x.call (serverPeer n b 0) (.key c)
  streamCall c now x := x.call (serverPeer n b now) (.stream c)
  entryCount x := b.entryCount x.world

end LifecycleLog.Remote
