-- Delays between attempts: none before the first failure, then a delay that
-- doubles with each failure up to a cap.
import LifecycleLog.Span

namespace LifecycleLog

/-- `least` is the delay after the first failure, `most` the cap. -/
structure Backoff where
  least : Span
  most : Span
  deriving DecidableEq

namespace Backoff

def default : Backoff := ⟨Span.ofMillis 100, Span.ofSeconds 10⟩

/-- The largest 32-bit number, at which counts and factors stop. -/
def greatestCount : Nat := UInt32.size - 1

/-- What the least delay is multiplied by: a power of two of 32 bits, or the
largest 32-bit number beyond those. -/
def factor (failures : Nat) : Nat :=
  if failures - 1 < 32 then Nat.pow 2 (failures - 1) else greatestCount

/-- The delay after so many failures in a row. -/
def delay (b : Backoff) (failures : Nat) : Span :=
  if failures = 0 then Span.zero else (b.least.times (factor failures)).shorter b.most

/-- One more failure; the count stops at the largest 32-bit number. -/
def count (failures : Nat) : Nat := min (failures + 1) greatestCount

end Backoff

end LifecycleLog
