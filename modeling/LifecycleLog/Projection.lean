-- The route maps that lifecycle events maintain. A created or updated entity
-- with a foreign id is routed, a removed one is forgotten; without a foreign
-- id an event leaves the routes as they are, and connections never matter.
import LifecycleLog.Cache.Routes
import LifecycleLog.Event.Error
import LifecycleLog.Json.Read

namespace LifecycleLog

/-- The routes of one class of entities: their key space, and where the
foreign id stands in the metadata. -/
structure RouteClass where
  space : String
  pointer : String
  deriving DecidableEq, Repr

namespace RouteClass

def routes (c : RouteClass) : RouteMap := ⟨c.space⟩

/-- The foreign id that a JSON value holds: a text that is not empty, or the
text of a number. -/
def idOfValue : Json → Option String
  | .string s => if s.isEmpty then none else some s
  | .number n => some n.text
  | _ => none

/-- The foreign id of an entity: the one it states, else the one its metadata
holds at the pointer. -/
def foreignId (c : RouteClass) (d : Details) : Option String :=
  match d.externalId with
  | some id => some id
  | none => do
    let metadata ← d.metadata
    let doc ← Json.read metadata
    let value ← doc.pointer c.pointer
    idOfValue value

end RouteClass

structure RouteClasses where
  thing : RouteClass
  channel : RouteClass
  deriving DecidableEq, Repr

namespace RouteClasses

def ofKind (p : RouteClasses) : EntityKind → RouteClass
  | .thing => p.thing
  | .channel => p.channel

end RouteClasses

/-- What a handler makes of a cache result. -/
def EventError.ofCache {α : Type} : Except CacheError α → Except EventError Unit
  | .ok _ => .ok ()
  | .error e => .error (.cache e)

namespace Projection

/-- Routes an entity, if its details hold a foreign id. -/
def route (c : RouteClass) (id : String) (details : Details) :
    KeyProgram (Except EventError Unit) :=
  match c.foreignId details with
  | some foreign => (c.routes.save foreign id).bind fun r => .done (EventError.ofCache r)
  | none => .done (.ok ())

/-- What an event does to the routes. -/
def handle (p : RouteClasses) : Event → KeyProgram (Except EventError Unit)
  | .created kind id _ details => route (p.ofKind kind) id details
  | .updated kind id details => route (p.ofKind kind) id details
  | .removed kind id => ((p.ofKind kind).routes.remove id).bind fun r => .done (EventError.ofCache r)
  | .connected _ _ => .done (.ok ())
  | .disconnected _ _ => .done (.ok ())

end Projection

end LifecycleLog
