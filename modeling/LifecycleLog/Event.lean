-- Lifecycle events: what happens to things and channels, and to the
-- connections between them. On a stream an event is a flat record whose
-- `operation` attribute holds one of eight tags; an empty attribute counts as
-- absent.
import LifecycleLog.Store.Call

namespace LifecycleLog

/-! ## Vocabulary -/

inductive EntityKind
  | thing
  | channel
  deriving DecidableEq, Repr

/-- What an entity may say of itself. -/
structure Details where
  name : Option String
  externalId : Option String
  metadata : Option String
  deriving DecidableEq, Repr

inductive Event
  | created (kind : EntityKind) (id owner : String) (details : Details)
  | updated (kind : EntityKind) (id : String) (details : Details)
  | removed (kind : EntityKind) (id : String)
  | connected (channelId thingId : String)
  | disconnected (channelId thingId : String)
  deriving DecidableEq, Repr

inductive Tag
  | create (kind : EntityKind)
  | update (kind : EntityKind)
  | remove (kind : EntityKind)
  | connect
  | disconnect
  deriving DecidableEq, Repr

def Tag.text : Tag → String
  | .create .thing => "thing.create"
  | .create .channel => "channel.create"
  | .update .thing => "thing.update"
  | .update .channel => "channel.update"
  | .remove .thing => "thing.remove"
  | .remove .channel => "channel.remove"
  | .connect => "thing.connect"
  | .disconnect => "thing.disconnect"

def Tag.all : List Tag :=
  [.create .thing, .create .channel, .update .thing, .update .channel, .remove .thing,
    .remove .channel, .connect, .disconnect]

/-- The tag that a text names. -/
def Tag.ofText? (text : String) : Option Tag := Tag.all.find? (fun t => t.text = text)

namespace Event

def tag : Event → Tag
  | .created kind _ _ _ => .create kind
  | .updated kind _ _ => .update kind
  | .removed kind _ => .remove kind
  | .connected _ _ => .connect
  | .disconnected _ _ => .disconnect

/-- The entity that an event is about; connections have none. -/
def entity? : Event → Option (EntityKind × String)
  | .created kind id _ _ => some (kind, id)
  | .updated kind id _ => some (kind, id)
  | .removed kind id => some (kind, id)
  | .connected _ _ => none
  | .disconnected _ _ => none

end Event

/-! ## Records -/

namespace Attribute

def operation : String := "operation"
def id : String := "id"
def owner : String := "owner"
def name : String := "name"
def externalId : String := "external_id"
def metadata : String := "metadata"
def channelId : String := "chan_id"
def thingId : String := "thing_id"

end Attribute

/-- The attributes of the details that are there. -/
def Details.attributes (d : Details) : List (String × String) :=
  let present (key : String) (value : Option String) : List (String × String) :=
    value.toList.map (fun v => (key, v))
  present Attribute.name d.name ++ present Attribute.externalId d.externalId ++
    present Attribute.metadata d.metadata

/-- The attributes of an event besides its operation. -/
def Event.attributes : Event → List (String × String)
  | .created _ id owner details =>
    (Attribute.id, id) :: (Attribute.owner, owner) :: details.attributes
  | .updated _ id details => (Attribute.id, id) :: details.attributes
  | .removed _ id => [(Attribute.id, id)]
  | .connected channelId thingId =>
    [(Attribute.channelId, channelId), (Attribute.thingId, thingId)]
  | .disconnected channelId thingId =>
    [(Attribute.channelId, channelId), (Attribute.thingId, thingId)]

def Event.encode (e : Event) : Fields :=
  Table.ofList ((Attribute.operation, e.tag.text) :: e.attributes)

/-- Why a record is no event. -/
inductive DecodeError
  | missingOperation
  | missingAttribute (tag : Tag) (key : String)
  deriving DecidableEq, Repr

def DecodeError.message : DecodeError → String
  | .missingOperation => "record has no operation attribute"
  | .missingAttribute tag key => s!"{tag.text} record is missing attribute '{key}'"

namespace Record

/-- An attribute that is there and not empty. -/
def optional (fields : Fields) (key : String) : Option String :=
  (fields.get? key).filter (fun v => !v.isEmpty)

def required (fields : Fields) (tag : Tag) (key : String) : Except DecodeError String :=
  match optional fields key with
  | some value => .ok value
  | none => .error (.missingAttribute tag key)

def details (fields : Fields) : Details :=
  ⟨optional fields Attribute.name, optional fields Attribute.externalId,
    optional fields Attribute.metadata⟩

/-- The event of a record with a known tag. -/
def event (fields : Fields) (tag : Tag) : Except DecodeError Event :=
  match tag with
  | .create kind => do
    let id ← required fields tag Attribute.id
    let owner ← required fields tag Attribute.owner
    pure (.created kind id owner (details fields))
  | .update kind => do
    let id ← required fields tag Attribute.id
    pure (.updated kind id (details fields))
  | .remove kind => do
    let id ← required fields tag Attribute.id
    pure (.removed kind id)
  | .connect => do
    let channelId ← required fields tag Attribute.channelId
    let thingId ← required fields tag Attribute.thingId
    pure (.connected channelId thingId)
  | .disconnect => do
    let channelId ← required fields tag Attribute.channelId
    let thingId ← required fields tag Attribute.thingId
    pure (.disconnected channelId thingId)

end Record

/-- Reads a record; `none` if its operation is no known tag. -/
def Event.decode (fields : Fields) : Except DecodeError (Option Event) :=
  match fields.get? Attribute.operation with
  | none => .error .missingOperation
  | some operation =>
    match Tag.ofText? operation with
    | none => .ok none
    | some tag => (Record.event fields tag).map some

end LifecycleLog
