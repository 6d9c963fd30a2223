-- Pairs of texts in a key store, found from either side. The pair of `a` and
-- `b` is two entries: one from `a` to `b`, one from `b` to `a`. Saving a pair
-- first unlinks what either side was paired with; removing a pair spares an
-- entry that has moved on to another owner.
import LifecycleLog.Store.Call

namespace LifecycleLog

/-! ## Errors -/

inductive CacheError
  | notFound (cache key : String)
  | save (cache : String) (source : StoreError)
  | lookup (cache : String) (source : StoreError)
  | remove (cache : String) (source : StoreError)
  deriving DecidableEq, Repr

namespace CacheError

def message : CacheError → String
  | .notFound cache key => s!"{cache} cache has no entry for '{key}'"
  | .save cache source => s!"saving to {cache} cache: {source.message}"
  | .lookup cache source => s!"reading from {cache} cache: {source.message}"
  | .remove cache source => s!"removing from {cache} cache: {source.message}"

/-- A miss, not a failure of the store. -/
def isNotFound : CacheError → Bool
  | .notFound _ _ => true
  | _ => false

def cache : CacheError → String
  | .notFound cache _ => cache
  | .save cache _ => cache
  | .lookup cache _ => cache
  | .remove cache _ => cache

/-- The store failure behind the error, if there is one. -/
def source? : CacheError → Option StoreError
  | .notFound _ _ => none
  | .save _ source => some source
  | .lookup _ source => some source
  | .remove _ source => some source

end CacheError

/-- Makes a call and goes on with its answer; a failure ends the program with
the error that `wrap` makes of it. -/
def KeyCall.orFail {ε α : Type} (c : KeyCall) (wrap : StoreError → ε)
    (next : c.Answer → KeyProgram (Except ε α)) : KeyProgram (Except ε α) :=
  .ask c (fun
    | .ok answer => next answer
    | .error e => .done (.error (wrap e)))

/-! ## Pairs -/

/-- A cache of pairs: its name in errors, and the key spaces of its two sides. -/
structure PairCache where
  name : String
  forward : String
  reverse : String
  deriving DecidableEq, Repr

namespace PairCache

/-- The key of the entry from `a`. -/
def forwardKey (c : PairCache) (a : String) : String := c.forward ++ ":" ++ a

/-- The key of the entry from `b`. -/
def reverseKey (c : PairCache) (b : String) : String := c.reverse ++ ":" ++ b

/-- The entry to unlink when a side found `old` instead of `new`: its key, and
the owner that it has to point back to. -/
def unlinked (keyOf : String → String) (new owner : String) : Option String → List (String × String)
  | none => []
  | some old => if old = new then [] else [(keyOf old, owner)]

/-- Reads each entry and keeps the keys of those that point to their owner. -/
def pointingBack {ε α : Type} (wrap : StoreError → ε) :
    List (String × String) → (List String → KeyProgram (Except ε α)) → KeyProgram (Except ε α)
  | [], next => next []
  | (key, owner) :: rest, next =>
    (KeyCall.get key).orFail wrap fun current =>
      pointingBack wrap rest fun stale =>
        next (if current = some owner then key :: stale else stale)

/-- Deletes keys, if there are any. -/
def deleteAny {ε α : Type} (wrap : StoreError → ε) (keys : List String)
    (next : KeyProgram (Except ε α)) : KeyProgram (Except ε α) :=
  if keys.isEmpty then next else (KeyCall.delete keys).orFail wrap fun _ => next

/-- Saves the pair: the entry from `a`, then the entry from `b`. A failure on
the way leaves it half written; saving it again completes it. -/
def save (c : PairCache) (a b : String) : KeyProgram (Except CacheError Unit) :=
  let wrap := CacheError.save c.name
  (KeyCall.get (c.forwardKey a)).orFail wrap fun oldB =>
  (KeyCall.get (c.reverseKey b)).orFail wrap fun oldA =>
  let candidates := unlinked c.reverseKey b a oldB ++ unlinked c.forwardKey a b oldA
  pointingBack wrap candidates fun stale =>
  deleteAny wrap stale <|
  (KeyCall.set (c.forwardKey a) b).orFail wrap fun _ =>
  (KeyCall.set (c.reverseKey b) a).orFail wrap fun _ => .done (.ok ())

/-- Reads an entry; an absent one is a miss that names the text asked for. -/
def lookup (c : PairCache) (key raw : String) : KeyProgram (Except CacheError String) :=
  (KeyCall.get key).orFail (CacheError.lookup c.name) fun
    | some value => .done (.ok value)
    | none => .done (.error (.notFound c.name raw))

/-- The partner of `a`. -/
def get (c : PairCache) (a : String) : KeyProgram (Except CacheError String) :=
  c.lookup (c.forwardKey a) a

/-- The partner of `b`. -/
def getReverse (c : PairCache) (b : String) : KeyProgram (Except CacheError String) :=
  c.lookup (c.reverseKey b) b

/-- Deletes the entry `own` of `value`, and the entry of its partner if that
one still points back. -/
def removeEntry (c : PairCache) (own value : String) (keyOf : String → String) :
    KeyProgram (Except CacheError Bool) :=
  let wrap := CacheError.remove c.name
  (KeyCall.get own).orFail wrap fun
    | none => .done (.ok false)
    | some partner =>
      (KeyCall.get (keyOf partner)).orFail wrap fun back =>
        let keys := if back = some value then [own, keyOf partner] else [own]
        (KeyCall.delete keys).orFail wrap fun _ => .done (.ok true)

/-- Removes the pair of `a`; `false` if there was none. -/
def remove (c : PairCache) (a : String) : KeyProgram (Except CacheError Bool) :=
  c.removeEntry (c.forwardKey a) a c.reverseKey

/-- Removes the pair of `b`; `false` if there was none. -/
def removeReverse (c : PairCache) (b : String) : KeyProgram (Except CacheError Bool) :=
  c.removeEntry (c.reverseKey b) b c.forwardKey

end PairCache

end LifecycleLog
