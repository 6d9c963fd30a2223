-- What a subscription is told: whom it reads as, in which portions, and how
-- long it waits.
import LifecycleLog.Store.Call
import LifecycleLog.Subscription.Backoff

namespace LifecycleLog

structure Options where
  group : String
  consumer : String
  batchSize : Nat
  /-- How long a read for new entries waits. -/
  block : Span
  /-- The longest wait before failed entries are tried again. -/
  pendingRetry : Span
  /-- How long an entry is idle before it is claimed; `none` for no claims. -/
  claimIdle : Option Span
  backoff : Backoff
  /-- Attempts to set the group up. -/
  connectAttempts : Nat
  start : GroupStart
  deriving DecidableEq

/-- The options of a group and a consumer, all else as usual. -/
def Options.of (group consumer : String) : Options where
  group := group
  consumer := consumer
  batchSize := 100
  block := Span.ofSeconds 1
  pendingRetry := Span.ofSeconds 5
  claimIdle := some (Span.ofSeconds 60)
  backoff := Backoff.default
  connectAttempts := 5
  start := .beginning

end LifecycleLog
