-- Ids of messages through a LoRa adapter. An uplink names a device and an
-- application, a downlink a thing and a channel; each id is looked up in its
-- route map, and a message with an unknown id is rejected.
import LifecycleLog.Cache.Routes

namespace LifecycleLog

inductive AdapterError
  | unknownDevice (id : String)
  | unknownChannel (id : String)
  | lookup (source : CacheError)
  deriving DecidableEq, Repr

namespace AdapterError

def message : AdapterError → String
  | .unknownDevice id => s!"unknown device '{id}'"
  | .unknownChannel id => s!"unknown channel '{id}'"
  | .lookup source => s!"route lookup failed: {source.message}"

/-- The message named an id that is not routed. -/
def isUnknown : AdapterError → Bool
  | .lookup _ => false
  | _ => true

/-- A miss means the id is unknown; all else is a failed lookup. -/
def ofCache (unknown : AdapterError) (e : CacheError) : AdapterError :=
  if e.isNotFound then unknown else .lookup e

end AdapterError

/-- Where an uplink message goes. -/
structure UplinkRoute where
  thingId : String
  channelId : String
  deriving DecidableEq, Repr

/-- Where a downlink message goes. -/
structure DownlinkRoute where
  device : String
  application : String
  deriving DecidableEq, Repr

structure Adapter where
  things : RouteMap
  channels : RouteMap
  deriving DecidableEq, Repr

namespace Adapter

/-- Looks an id up and goes on with what it routes to. -/
def resolve {α : Type} (lookup : KeyProgram (Except CacheError String)) (unknown : AdapterError)
    (next : String → KeyProgram (Except AdapterError α)) : KeyProgram (Except AdapterError α) :=
  lookup.bind fun
    | .ok id => next id
    | .error e => .done (.error (unknown.ofCache e))

def uplink (x : Adapter) (device application : String) :
    KeyProgram (Except AdapterError UplinkRoute) :=
  resolve (x.things.get device) (.unknownDevice device) fun thingId =>
  resolve (x.channels.get application) (.unknownChannel application) fun channelId =>
  .done (.ok ⟨thingId, channelId⟩)

def downlink (x : Adapter) (thingId channelId : String) :
    KeyProgram (Except AdapterError DownlinkRoute) :=
  resolve (x.things.foreignId thingId) (.unknownDevice thingId) fun device =>
  resolve (x.channels.foreignId channelId) (.unknownChannel channelId) fun application =>
  .done (.ok ⟨device, application⟩)

end Adapter

end LifecycleLog
