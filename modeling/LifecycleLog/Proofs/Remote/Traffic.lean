-- A shared client and its server with a network in between. The server answers
-- the requests of each connection in their order, one response each, but when
-- it likes and whatever it likes; the bytes arrive later, in any pieces, or
-- never. Calls start, go on, fail and are given up in between, in any order.
import LifecycleLog.Proofs.Remote.Transparency
import LifecycleLog.Remote.Sharing
import Mathlib.Logic.Function.Basic

namespace LifecycleLog.Remote

open Wire

/-! ## The network and the server -/

/-- A connection beyond the client: the requests that were sent on it, each with
the number of its call, the bodies of the responses that the server gave, and
the bytes that have not arrived yet. -/
structure Line where
  requests : List (Nat × List UInt8)
  replies : List (List UInt8)
  coming : List UInt8
  deriving DecidableEq

def Line.blank : Line := ⟨[], [], []⟩

/-- All connections by their numbers, of which so many were opened. `refusal` is
why none can be opened now, and `sender` the number of the call that sends. -/
structure Net where
  lines : Nat → Line
  opened : Nat
  refusal : Option String
  sender : Nat

namespace Net

def blank : Net := ⟨fun _ => .blank, 0, none, 0⟩

def setLine (w : Net) (k : Nat) (l : Line) : Net := { w with lines := Function.update w.lines k l }

@[simp] theorem setLine_lines_self (w : Net) (k : Nat) (l : Line) : (w.setLine k l).lines k = l :=
  Function.update_self ..

theorem setLine_lines_of_ne (w : Net) {k j : Nat} (hj : j ≠ k) (l : Line) :
    (w.setLine k l).lines j = w.lines j :=
  Function.update_of_ne hj ..

/-- The network as the other side of a client. Nothing comes back at once. -/
def peer : Peer Net Nat where
  connect w := match w.refusal with
    | some cause => (.error cause, w)
    | none => (.ok w.opened, { w with opened := w.opened + 1 })
  receive bytes k w :=
    (⟨[], false⟩, k, w.setLine k
      { w.lines k with requests := (w.lines k).requests ++ [(w.sender, bytes)] })

/-- The server answers the next request of a connection, if there is one. -/
def answer (k : Nat) (body : List UInt8) (w : Net) : Net :=
  let l := w.lines k
  if l.replies.length < l.requests.length ∧ body.length ≤ maxFrame then
    w.setLine k { l with replies := l.replies ++ [body], coming := l.coming ++ framed body }
  else w

end Net

/-! ## What can happen -/

inductive Turn
  | start (call : Call)
  | send (number : Nat)
  | receive (number : Nat)
  | fail (number : Nat) (cause : String)
  | cancel (number : Nat)
  /-- The server answers on a connection. -/
  | answer (line : Nat) (body : List UInt8)
  /-- Bytes arrive at the connection that a call holds. -/
  | deliver (number count : Nat)
  /-- The other side closes the connection that a call holds. -/
  | close (number : Nat)
  /-- From now on connections are refused, or no more. -/
  | refuse (cause : Option String)

/-- A shared client, and how many calls were started on it. -/
structure Traffic where
  sharing : Sharing Net Nat
  calls : Nat

namespace Traffic

def fresh (address : String) : Traffic := ⟨.ofSession ⟨address, [], .blank⟩, 0⟩

def net (x : Traffic) : Net := x.sharing.session.world

def kept (x : Traffic) : List (Link Nat) := x.sharing.session.kept

/-- The call under way with a number. -/
def held? (x : Traffic) (n : Nat) : Option (Exchange Nat) := x.sharing.exchanges.get? n

def answered (x : Traffic) : List (Nat × Answered) := x.sharing.answered

def move (m : Move) (x : Traffic) : Traffic := { x with sharing := x.sharing.step Net.peer m }

def withNet (w : Net) (x : Traffic) : Traffic :=
  { x with sharing := { x.sharing with session := { x.sharing.session with world := w } } }

/-- A call goes on, and with it the network. -/
def goOn (n : Nat) (e : Exchange Nat) (w : Net) (x : Traffic) : Traffic :=
  { x with
    sharing :=
      { x.sharing with
        session := { x.sharing.session with world := w }
        exchanges := x.sharing.exchanges.insert n e } }

@[simp] theorem net_withNet (w : Net) (x : Traffic) : (x.withNet w).net = w := rfl

@[simp] theorem net_goOn (n : Nat) (e : Exchange Nat) (w : Net) (x : Traffic) :
    (x.goOn n e w).net = w := rfl

theorem held?_goOn (n : Nat) (e : Exchange Nat) (w : Net) (x : Traffic) (m : Nat) :
    (x.goOn n e w).held? m = if m = n then some e else x.held? m :=
  Table.get?_insert ..

/-- So many of the bytes on the way arrive. -/
def deliver (n : Nat) (e : Exchange Nat) (count : Nat) (x : Traffic) : Traffic :=
  let l := x.net.lines e.link.peer
  x.goOn n { e with link := { e.link with incoming := e.link.incoming ++ l.coming.take count } }
    (x.net.setLine e.link.peer { l with coming := l.coming.drop count })

/-- Every call has a number of its own. -/
def step (t : Turn) (x : Traffic) : Traffic :=
  match t with
  | .start c => { x.move (.start x.calls c) with calls := x.calls + 1 }
  | .send n => (x.withNet { x.net with sender := n }).move (.send n)
  | .receive n => x.move (.receive n)
  | .fail n cause => x.move (.fail n cause)
  | .cancel n => x.move (.cancel n)
  | .answer k body => x.withNet (x.net.answer k body)
  | .deliver n count =>
    match x.held? n with
    | some e => x.deliver n e count
    | none => x
  | .close n =>
    match x.held? n with
    | some e => x.goOn n { e with link := { e.link with closed := true } } x.net
    | none => x
  | .refuse refusal => x.withNet { x.net with refusal }

def run (turns : List Turn) (x : Traffic) : Traffic := turns.foldl (fun x t => x.step t) x

theorem run_snoc (turns : List Turn) (t : Turn) (x : Traffic) :
    run (turns ++ [t]) x = (run turns x).step t := by
  simp [run]

end Traffic

/-! ## What calls get -/

/-- The call got no response. -/
def Unreached (address : String) (a : Answered) : Prop :=
  ∃ cause : String, a.result = .error (.unavailable s!"store server {address}: {cause}")

/-- The request in place `i` of a connection was sent by the call, and the result
of the call is what the response in that place says. -/
def AnsweredBy (w : Net) (n : Nat) (a : Answered) (k i : Nat) : Prop :=
  ∃ body response, (w.lines k).requests[i]? = some (n, framed (encodeRequest a.call)) ∧
    (w.lines k).replies[i]? = some body ∧ decodeBody decodeResponse body = .ok response ∧
    a.result = Session.verdict a.call response

namespace Traffic

/-- The request in that place was answered, and its call has read the answer. -/
def Settled (x : Traffic) (k i : Nat) : Prop :=
  ∃ n a, (n, a) ∈ x.answered ∧ AnsweredBy x.net n a k i

/-- All that was asked on the connection is settled, and there is nothing more
to read. -/
structure Clear (x : Traffic) (link : Link Nat) : Prop where
  unread : link.incoming = []
  coming : (x.net.lines link.peer).coming = []
  replies : (x.net.lines link.peer).replies.length = (x.net.lines link.peer).requests.length
  settled : ∀ i < (x.net.lines link.peer).requests.length, x.Settled link.peer i

/-- Calls and responses are never mixed up. -/
structure Uncrossed (address : String) (x : Traffic) : Prop where
  /-- A call fails for want of a response, or its result is what the response to
  its own request says. -/
  own : ∀ n a, (n, a) ∈ x.answered → Unreached address a ∨ ∃ k i, AnsweredBy x.net n a k i
  /-- The response that a call is about to read is that response, and it is the
  last thing on its connection. -/
  reads : ∀ n e response rest, x.held? n = some e → e.sent = true →
    readFrame decodeResponse e.link.incoming = (.ok response, rest) →
    rest = [] ∧ ∃ i, AnsweredBy x.net n ⟨e.call, Session.verdict e.call response⟩ e.link.peer i
  /-- No call sends two requests. -/
  once : ∀ (k i k' i' n : Nat) bytes bytes', (x.net.lines k).requests[i]? = some (n, bytes) →
    (x.net.lines k').requests[i']? = some (n, bytes') → k = k' ∧ i = i'
  /-- A request is sent only where all before it are settled. -/
  settled : ∀ k i, i + 1 < (x.net.lines k).requests.length → x.Settled k i
  /-- So they are where a connection is kept, or taken and not used yet. -/
  clear : ∀ link, (link ∈ x.kept ∨ ∃ n e, x.held? n = some e ∧ e.sent = false ∧ e.link = link) →
    x.Clear link
  /-- A connection is kept once, or one call has it. -/
  keptOnce : (x.kept.map (·.peer)).Nodup
  heldOnce : ∀ n e m e', x.held? n = some e → x.held? m = some e' →
    e.link.peer = e'.link.peer → n = m
  apart : ∀ link ∈ x.kept, ∀ n e, x.held? n = some e → link.peer ≠ e.link.peer

end Traffic

end LifecycleLog.Remote
