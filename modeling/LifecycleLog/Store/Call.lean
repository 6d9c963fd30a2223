-- The calls of a store and their answers. A store keeps scalar keys, and
-- append-only streams that consumer groups read. Calls are data, so they can
-- be sent, counted, made to fail and put in any order.
import LifecycleLog.Program
import LifecycleLog.Span
import LifecycleLog.Store.Error
import LifecycleLog.Table

namespace LifecycleLog

/-! ## Streams -/

/-- The attributes of a stream entry. -/
abbrev Fields := Table String String

/-- An entry as a consumer gets it. Ids count from 1 in each stream;
`deliveries` counts this delivery too. -/
structure Entry where
  id : Nat
  fields : Fields
  deliveries : Nat
  deriving DecidableEq

/-- A delivered entry that nobody acknowledged yet. -/
structure PendingEntry where
  id : Nat
  consumer : String
  deliveries : Nat
  idle : Span
  deriving DecidableEq

/-- What a group read asks for: entries new to the group, or the consumer's
own pending entries with ids above `after`. -/
inductive ReadMode
  | new
  | pending (after : Nat)
  deriving DecidableEq, Repr

/-- Where a new group starts to read. -/
inductive GroupStart
  | beginning
  | latest
  deriving DecidableEq, Repr

/-! ## Calls -/

inductive KeyCall
  | get (key : String)
  | set (key value : String)
  /-- Deletes all the keys in one step and counts those that were there. -/
  | delete (keys : List String)
  deriving DecidableEq, Repr

namespace KeyCall

abbrev Answer : KeyCall → Type
  | .get _ => Option String
  | .set _ _ => Unit
  | .delete _ => Nat

end KeyCall

inductive StreamCall
  | append (stream : String) (fields : Fields)
  /-- `false` if the group is there already. -/
  | createGroup (stream group : String) (start : GroupStart)
  | readGroup (stream group consumer : String) (mode : ReadMode) (count : Nat) (block : Span)
  | ack (stream group : String) (ids : List Nat)
  /-- Takes over entries that are idle for at least `minIdle`. -/
  | claimIdle (stream group consumer : String) (minIdle : Span) (count : Nat)
  | pending (stream group : String)
  deriving DecidableEq

namespace StreamCall

abbrev Answer : StreamCall → Type
  | .append _ _ => Nat
  | .createGroup _ _ _ => Bool
  | .readGroup _ _ _ _ _ _ => List Entry
  | .ack _ _ _ => Nat
  | .claimIdle _ _ _ _ _ => List Entry
  | .pending _ _ => List PendingEntry

end StreamCall

inductive Call
  | key (call : KeyCall)
  | stream (call : StreamCall)
  deriving DecidableEq

namespace Call

abbrev Answer : Call → Type
  | .key c => c.Answer
  | .stream c => c.Answer

/-- The name of the operation in messages. -/
def name : Call → String
  | .key (.get _) => "get"
  | .key (.set _ _) => "set"
  | .key (.delete _) => "delete"
  | .stream (.append _ _) => "append"
  | .stream (.createGroup _ _ _) => "create_group"
  | .stream (.readGroup _ _ _ _ _ _) => "read_group"
  | .stream (.ack _ _ _) => "ack"
  | .stream (.claimIdle _ _ _ _ _) => "claim_idle"
  | .stream (.pending _ _) => "pending"

/-- How long the call itself may wait for entries. -/
def wait : Call → Span
  | .stream (.readGroup _ _ _ _ _ block) => block
  | _ => Span.zero

end Call

/-! ## Programs over the keys -/

/-- Every key call may fail. -/
abbrev KeyReply (c : KeyCall) : Type := Except StoreError c.Answer

abbrev KeyProgram (α : Type) : Type := Program KeyCall KeyReply α

/-! ## Stores -/

/-- A store that answers each call at once. `now` is the clock reading in
nanoseconds. A read for new entries answers what is there and leaves the
waiting to its caller. -/
structure Backend (σ : Type) where
  empty : σ
  keyCall : (c : KeyCall) → σ → Except StoreError c.Answer × σ
  streamCall : (c : StreamCall) → (now : Nat) → σ → Except StoreError c.Answer × σ
  /-- How many entries all streams hold together. -/
  entryCount : σ → Nat

/-- Answers any call. -/
def Backend.call {σ : Type} (b : Backend σ) (now : Nat) :
    (c : Call) → σ → Except StoreError c.Answer × σ
  | .key c, s => b.keyCall c s
  | .stream c, s => b.streamCall c now s

end LifecycleLog
