-- The messages between a client and a store server. A request is a store
-- call; a response is its answer, or the failure of it.
import LifecycleLog.Wire.Codec

namespace LifecycleLog.Wire

/-! ## Failures -/

/-- A failure at the server as its client sees it. -/
inductive Failure
  | noSuchGroup (stream group : String)
  | unavailable (detail : String)
  | backend (detail : String)
  deriving DecidableEq, Repr

/-- A missing group stays what it is; all else becomes its text, and keeps
whether it is worth a retry. -/
def Failure.ofError : StoreError → Failure
  | .noSuchGroup stream group => .noSuchGroup stream group
  | e => if e.isRetryable then .unavailable e.message else .backend e.message

def Failure.toError : Failure → StoreError
  | .noSuchGroup stream group => .noSuchGroup stream group
  | .unavailable detail => .unavailable detail
  | .backend detail => .remote detail

/-! ## Responses -/

inductive Response
  | value (value : Option String)
  | done
  | count (n : Nat)
  | id (n : Nat)
  | created (isNew : Bool)
  | entries (entries : List Entry)
  | pending (entries : List PendingEntry)
  | failure (failure : Failure)
  deriving DecidableEq

/-- The response that carries an answer. -/
def Response.ofAnswer : (c : Call) → c.Answer → Response
  | .key (.get _), a => .value a
  | .key (.set _ _), _ => .done
  | .key (.delete _), a => .count a
  | .stream (.append _ _), a => .id a
  | .stream (.createGroup _ _ _), a => .created a
  | .stream (.readGroup _ _ _ _ _ _), a => .entries a
  | .stream (.ack _ _ _), a => .count a
  | .stream (.claimIdle _ _ _ _ _), a => .entries a
  | .stream (.pending _ _), a => .pending a

/-- The answer that a response carries, if it is one to this call. -/
def Response.answer? : (c : Call) → Response → Option c.Answer
  | .key (.get _), .value a => some a
  | .key (.set _ _), .done => some ()
  | .key (.delete _), .count a => some a
  | .stream (.append _ _), .id a => some a
  | .stream (.createGroup _ _ _), .created a => some a
  | .stream (.readGroup _ _ _ _ _ _), .entries a => some a
  | .stream (.ack _ _ _), .count a => some a
  | .stream (.claimIdle _ _ _ _ _), .entries a => some a
  | .stream (.pending _ _), .pending a => some a
  | _, _ => none

/-- The response to a call that was answered or failed. -/
def Response.ofResult (c : Call) : Except StoreError c.Answer → Response
  | .ok a => .ofAnswer c a
  | .error e => .failure (.ofError e)

/-! ## Requests as bytes -/

def encodeMode : ReadMode → List UInt8
  | .new => encodeU32 0
  | .pending after => encodeU32 1 ++ encodeU64 after

def encodeStart : GroupStart → List UInt8
  | .beginning => encodeU32 0
  | .latest => encodeU32 1

def encodeRequest : Call → List UInt8
  | .key (.get key) => encodeU32 0 ++ encodeText key
  | .key (.set key value) => encodeU32 1 ++ encodeText key ++ encodeText value
  | .key (.delete keys) => encodeU32 2 ++ encodeList encodeText keys
  | .stream (.append stream fields) => encodeU32 3 ++ encodeText stream ++ encodeFields fields
  | .stream (.createGroup stream group start) =>
    encodeU32 4 ++ encodeText stream ++ encodeText group ++ encodeStart start
  | .stream (.readGroup stream group consumer mode count block) =>
    encodeU32 5 ++ encodeText stream ++ encodeText group ++ encodeText consumer ++
      encodeMode mode ++ encodeU64 count ++ encodeSpan block
  | .stream (.ack stream group ids) =>
    encodeU32 6 ++ encodeText stream ++ encodeText group ++ encodeList encodeU64 ids
  | .stream (.claimIdle stream group consumer minIdle count) =>
    encodeU32 7 ++ encodeText stream ++ encodeText group ++ encodeText consumer ++
      encodeSpan minIdle ++ encodeU64 count
  | .stream (.pending stream group) => encodeU32 8 ++ encodeText stream ++ encodeText group

def decodeMode : Decoder ReadMode := do
  match ← decodeU32 with
  | 0 => pure .new
  | 1 => do
    let after ← decodeU64
    pure (.pending after)
  | tag => unknownTag tag 2

def decodeStart : Decoder GroupStart := do
  match ← decodeU32 with
  | 0 => pure .beginning
  | 1 => pure .latest
  | tag => unknownTag tag 2

/-- Decodes the body of a request after its tag. -/
def decodeRequestBody : (tag : Nat) → Decoder Call
  | 0 => do
    let key ← decodeText
    pure (.key (.get key))
  | 1 => do
    let key ← decodeText
    let value ← decodeText
    pure (.key (.set key value))
  | 2 => do
    let keys ← decodeList decodeText
    pure (.key (.delete keys))
  | 3 => do
    let stream ← decodeText
    let fields ← decodeFields
    pure (.stream (.append stream fields))
  | 4 => do
    let stream ← decodeText
    let group ← decodeText
    let start ← decodeStart
    pure (.stream (.createGroup stream group start))
  | 5 => do
    let stream ← decodeText
    let group ← decodeText
    let consumer ← decodeText
    let mode ← decodeMode
    let count ← decodeU64
    let block ← decodeSpan
    pure (.stream (.readGroup stream group consumer mode count block))
  | 6 => do
    let stream ← decodeText
    let group ← decodeText
    let ids ← decodeList decodeU64
    pure (.stream (.ack stream group ids))
  | 7 => do
    let stream ← decodeText
    let group ← decodeText
    let consumer ← decodeText
    let minIdle ← decodeSpan
    let count ← decodeU64
    pure (.stream (.claimIdle stream group consumer minIdle count))
  | 8 => do
    let stream ← decodeText
    let group ← decodeText
    pure (.stream (.pending stream group))
  | tag => unknownTag tag 9

def decodeRequest : Decoder Call := do
  let tag ← decodeU32
  decodeRequestBody tag

/-! ## Responses as bytes -/

def encodeEntry (e : Entry) : List UInt8 :=
  encodeU64 e.id ++ encodeFields e.fields ++ encodeU32 e.deliveries

def encodePendingEntry (e : PendingEntry) : List UInt8 :=
  encodeU64 e.id ++ encodeText e.consumer ++ encodeU32 e.deliveries ++ encodeSpan e.idle

def encodeFailure : Failure → List UInt8
  | .noSuchGroup stream group => encodeU32 0 ++ encodeText stream ++ encodeText group
  | .unavailable detail => encodeU32 1 ++ encodeText detail
  | .backend detail => encodeU32 2 ++ encodeText detail

def encodeResponse : Response → List UInt8
  | .value value => encodeU32 0 ++ encodeOption encodeText value
  | .done => encodeU32 1
  | .count n => encodeU32 2 ++ encodeU64 n
  | .id n => encodeU32 3 ++ encodeU64 n
  | .created isNew => encodeU32 4 ++ encodeBool isNew
  | .entries entries => encodeU32 5 ++ encodeList encodeEntry entries
  | .pending entries => encodeU32 6 ++ encodeList encodePendingEntry entries
  | .failure failure => encodeU32 7 ++ encodeFailure failure

def decodeEntry : Decoder Entry := do
  let id ← decodeU64
  let fields ← decodeFields
  let deliveries ← decodeU32
  pure ⟨id, fields, deliveries⟩

def decodePendingEntry : Decoder PendingEntry := do
  let id ← decodeU64
  let consumer ← decodeText
  let deliveries ← decodeU32
  let idle ← decodeSpan
  pure ⟨id, consumer, deliveries, idle⟩

def decodeFailure : Decoder Failure := do
  match ← decodeU32 with
  | 0 => do
    let stream ← decodeText
    let group ← decodeText
    pure (.noSuchGroup stream group)
  | 1 => do
    let detail ← decodeText
    pure (.unavailable detail)
  | 2 => do
    let detail ← decodeText
    pure (.backend detail)
  | tag => unknownTag tag 3

/-- Decodes the body of a response after its tag. -/
def decodeResponseBody : (tag : Nat) → Decoder Response
  | 0 => do
    let value ← decodeOption decodeText
    pure (.value value)
  | 1 => pure .done
  | 2 => do
    let n ← decodeU64
    pure (.count n)
  | 3 => do
    let n ← decodeU64
    pure (.id n)
  | 4 => do
    let isNew ← decodeBool
    pure (.created isNew)
  | 5 => do
    let entries ← decodeList decodeEntry
    pure (.entries entries)
  | 6 => do
    let entries ← decodeList decodePendingEntry
    pure (.pending entries)
  | 7 => do
    let failure ← decodeFailure
    pure (.failure failure)
  | tag => unknownTag tag 8

def decodeResponse : Decoder Response := do
  let tag ← decodeU32
  decodeResponseBody tag

end LifecycleLog.Wire
