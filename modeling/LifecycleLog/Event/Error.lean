-- How publishing, subscribing and handling fail.
import LifecycleLog.Cache.Pairs
import LifecycleLog.Event

namespace LifecycleLog

inductive EventError
  | append (stream : String) (source : StoreError)
  | subscribe (stream : String) (source : StoreError)
  | read (stream : String) (source : StoreError)
  | cache (source : CacheError)
  | decode (source : DecodeError)
  | handler (detail : String)
  /-- The task of a subscription broke down. -/
  | task
  deriving DecidableEq, Repr

def EventError.message : EventError → String
  | .append stream source => s!"appending to stream '{stream}': {source.message}"
  | .subscribe stream source => s!"subscribing to stream '{stream}': {source.message}"
  | .read stream source => s!"reading stream '{stream}': {source.message}"
  | .cache source => source.message
  | .decode source => source.message
  | .handler detail => s!"handler error: {detail}"
  | .task => "subscription task failed"

end LifecycleLog
