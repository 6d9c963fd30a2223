-- A scripted server, which accepts a given number of connections and reacts
-- to each request as planned. After its last connection it listens no more;
-- after the last reaction of a connection it stays silent there.
import LifecycleLog.Remote.Server

namespace LifecycleLog.Remote

/-- A planned reaction to a request. -/
inductive Cue
  | send (bytes : List UInt8)
  | close
  | silence
  deriving DecidableEq, Repr

/-- The plans of the connections still to be accepted, and how many were. -/
structure Script where
  upcoming : List (List Cue)
  accepted : Nat
  deriving DecidableEq, Repr

namespace Script

def connect (s : Script) : Except String (List Cue) × Script :=
  match s.upcoming with
  | [] => (.error ConnectFault.refused.message, s)
  | cues :: rest => (.ok cues, ⟨rest, s.accepted + 1⟩)

/-- Reacts to one request. -/
def react : List Cue → Reaction × List Cue
  | [] => (⟨[], false⟩, [])
  | .send bytes :: rest => (⟨bytes, false⟩, rest)
  | .close :: rest => (⟨[], true⟩, rest)
  | .silence :: _ => (⟨[], false⟩, [])

/-- The scripted server as the other side of a client. -/
def peer (n : Network) : Peer Script (List Cue) where
  connect s := match n with
    | .reachable => s.connect
    | .unreachable => (.error ConnectFault.unreachable.message, s)
  receive _ cues s :=
    let (reaction, rest) := react cues
    (reaction, rest, s)

end Script

end LifecycleLog.Remote
