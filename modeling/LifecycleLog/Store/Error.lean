-- How a store call fails. Each error is a cause; its wording is in `message`.
-- Only connection-class errors are worth a retry.
import LifecycleLog.Text.Utf8

namespace LifecycleLog

/-- Why the bytes of a message body are no message. -/
inductive Malformed
  /-- The body ends before the message does. -/
  | short
  /-- A tag that names none of the `count` alternatives. -/
  | unknownTag (found count : Nat)
  | badBool (found : Nat)
  | badOption (found : Nat)
  /-- The whole seconds of a span do not fit 64 bits. -/
  | spanOverflow
  | badText (fault : Utf8.Fault)
  | other (detail : String)
  deriving DecidableEq, Repr

def Malformed.message : Malformed → String
  | .short => "io error: unexpected end of file"
  | .unknownTag found count =>
    s!"invalid value: integer `{found}`, expected variant index 0 <= i < {count}"
  | .badBool found => s!"invalid u8 while decoding bool, expected 0 or 1, found {found}"
  | .badOption found => s!"tag for enum is not valid, found {found}"
  | .spanOverflow => "overflow deserializing Duration"
  | .badText fault => s!"string is not valid utf8: {fault.message}"
  | .other detail => detail

/-- A failure of the byte stream below the messages. -/
inductive StreamFault
  /-- The stream ended where a frame would start. -/
  | ended
  /-- The stream ended inside a frame. -/
  | cutOff
  | other (detail : String)
  deriving DecidableEq, Repr

def StreamFault.message : StreamFault → String
  | .ended => "unexpected end of file"
  | .cutOff => "early eof"
  | .other detail => detail

/-- Where a damaged database file was noticed. -/
inductive Stage
  | storage
  | transaction
  | commit
  deriving DecidableEq, Repr

inductive StoreError
  /-- The database file is open elsewhere. -/
  | alreadyOpen
  | corrupted (stage : Stage) (detail : String)
  | noSuchTable (name : String)
  | malformed (cause : Malformed)
  | io (fault : StreamFault)
  | unavailable (detail : String)
  | noSuchGroup (stream group : String)
  /-- A failure that a store server reported. -/
  | remote (detail : String)
  | frameTooLarge (size : Nat)
  deriving DecidableEq, Repr

namespace StoreError

def message : StoreError → String
  | .alreadyOpen => "redb error: Database already open. Cannot acquire lock."
  | .corrupted .storage detail => s!"redb storage error: DB corrupted: {detail}"
  | .corrupted .transaction detail => s!"redb transaction error: DB corrupted: {detail}"
  | .corrupted .commit detail => s!"redb commit error: DB corrupted: {detail}"
  | .noSuchTable name => s!"redb table error: Table '{name}' does not exist"
  | .malformed cause => s!"bincode error: {cause.message}"
  | .io fault => s!"io error: {fault.message}"
  | .unavailable detail => s!"store unavailable: {detail}"
  | .noSuchGroup stream group => s!"no such consumer group '{group}' on stream '{stream}'"
  | .remote detail => s!"store server error: {detail}"
  | .frameTooLarge size => s!"frame of {size} bytes exceeds the protocol limit"

/-- Connection-class failures may pass; all others stay. -/
def isRetryable : StoreError → Bool
  | .unavailable _ => true
  | .io _ => true
  | _ => false

end StoreError

end LifecycleLog
