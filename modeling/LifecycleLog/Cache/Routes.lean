-- Route maps: foreign ids of a protocol and the ids of entities here. Maps
-- share a store, and each keeps to the key space of its own name.
import LifecycleLog.Cache.Pairs

namespace LifecycleLog

/-- The route map of a key space. -/
structure RouteMap where
  space : String
  deriving DecidableEq, Repr

namespace RouteMap

def pairs (m : RouteMap) : PairCache :=
  ⟨"route:" ++ m.space, m.space ++ ":ext", m.space ++ ":int"⟩

/-- Routes a foreign id to an entity. -/
def save (m : RouteMap) (foreign entity : String) : KeyProgram (Except CacheError Unit) :=
  m.pairs.save foreign entity

/-- The entity of a foreign id. -/
def get (m : RouteMap) (foreign : String) : KeyProgram (Except CacheError String) :=
  m.pairs.get foreign

/-- The foreign id of an entity. -/
def foreignId (m : RouteMap) (entity : String) : KeyProgram (Except CacheError String) :=
  m.pairs.getReverse entity

/-- Forgets an entity; `false` if it had no route. -/
def remove (m : RouteMap) (entity : String) : KeyProgram (Except CacheError Bool) :=
  m.pairs.removeReverse entity

end RouteMap

end LifecycleLog
