-- Thing keys and thing ids, cached beside the repository that owns them. The
-- cache only saves lookups: what it misses or fails to say is asked of the
-- repository.
import LifecycleLog.Cache.Pairs

namespace LifecycleLog

/-- Pairs of a thing key and a thing id. -/
def thingPairs : PairCache := ⟨"thing", "thing_key", "thing"⟩

namespace Things

def save (key id : String) : KeyProgram (Except CacheError Unit) := thingPairs.save key id

/-- The id of the thing with a key. -/
def id (key : String) : KeyProgram (Except CacheError String) := thingPairs.get key

/-- Forgets a thing; `false` if nothing was cached. -/
def remove (id : String) : KeyProgram (Except CacheError Bool) := thingPairs.removeReverse id

end Things

/-! ## Identification -/

inductive IdentifyError
  | unknownKey
  | repository (detail : String)
  deriving DecidableEq, Repr

def IdentifyError.message : IdentifyError → String
  | .unknownKey => "unknown thing key"
  | .repository detail => s!"thing repository error: {detail}"

/-- The calls of an identification: to the key store, and to the repository. -/
inductive IdentifyCall
  | store (call : KeyCall)
  | retrieve (key : String)
  deriving DecidableEq, Repr

/-- What a repository answers to a key: an id, that it knows no such key, or a
failure. -/
abbrev Repository : Type := String → Except String (Option String)

abbrev IdentifyReply : IdentifyCall → Type
  | .store c => KeyReply c
  | .retrieve _ => Except String (Option String)

abbrev IdentifyProgram (α : Type) : Type := Program IdentifyCall IdentifyReply α

/-- A program over the keys as part of an identification. -/
def onStore {α : Type} (p : KeyProgram α) : IdentifyProgram α := p.within .store (fun _ r => r)

/-- The id of the thing with a key. A hit in the cache is the answer; else the
repository is asked, and its answer cached if the store lets it be. -/
def identify (key : String) : IdentifyProgram (Except IdentifyError String) :=
  (onStore (Things.id key)).bind fun
    | .ok id => .done (.ok id)
    | .error _ => .ask (.retrieve key) fun answer =>
      match (answer : Except String (Option String)) with
      | .error detail => .done (.error (.repository detail))
      | .ok none => .done (.error .unknownKey)
      | .ok (some id) => (onStore (Things.save key id)).bind fun _ => .done (.ok id)

end LifecycleLog
