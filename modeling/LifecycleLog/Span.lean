-- Lengths of time. A span is a whole number of nanoseconds below 2^64
-- seconds. Sums and products stop at the longest span, so nothing overflows.
namespace LifecycleLog

/-- Nanoseconds in a second. -/
def nanosPerSecond : Nat := 1000000000

/-- Nanoseconds in a millisecond. -/
def nanosPerMilli : Nat := 1000000

structure Span where
  nanos : Nat
  inRange : nanos < UInt64.size * nanosPerSecond
  deriving DecidableEq

namespace Span

/-- The longest span: 18446744073709551615 s and 999999999 ns. -/
def longest : Span := ⟨UInt64.size * nanosPerSecond - 1, by decide⟩

/-- The span of so many nanoseconds, or the longest one. -/
def ofNanos (n : Nat) : Span := ⟨min n longest.nanos, by
  have := longest.inRange
  omega⟩

def zero : Span := ofNanos 0

instance : Inhabited Span := ⟨zero⟩

def ofMillis (ms : Nat) : Span := ofNanos (ms * nanosPerMilli)

def ofSeconds (s : Nat) : Span := ofNanos (s * nanosPerSecond)

/-- Whole seconds. -/
def seconds (d : Span) : Nat := d.nanos / nanosPerSecond

/-- Nanoseconds beyond the whole seconds. -/
def subNanos (d : Span) : Nat := d.nanos % nanosPerSecond

/-- Whole milliseconds. -/
def millis (d : Span) : Nat := d.nanos / nanosPerMilli

/-- The span of a count of seconds and any count of nanoseconds. `none` if
the whole seconds do not fit 64 bits. -/
def ofParts? (seconds nanos : Nat) : Option Span :=
  if h : seconds * nanosPerSecond + nanos < UInt64.size * nanosPerSecond then
    some ⟨seconds * nanosPerSecond + nanos, h⟩
  else none

def add (d e : Span) : Span := ofNanos (d.nanos + e.nanos)

def times (d : Span) (k : Nat) : Span := ofNanos (d.nanos * k)

def shorter (d e : Span) : Span := if d.nanos ≤ e.nanos then d else e

theorem ext {d e : Span} (h : d.nanos = e.nanos) : d = e := by
  cases d; cases e; simp_all

@[simp] theorem nanos_ofNanos (n : Nat) : (ofNanos n).nanos = min n longest.nanos := rfl

theorem nanos_le_longest (d : Span) : d.nanos ≤ longest.nanos := by
  have := d.inRange
  simp only [longest]
  omega

theorem nanos_times (d : Span) (k : Nat) :
    (d.times k).nanos = min (d.nanos * k) longest.nanos := rfl

theorem nanos_shorter (d e : Span) : (d.shorter e).nanos = min d.nanos e.nanos := by
  unfold shorter
  split <;> omega

theorem seconds_lt (d : Span) : d.seconds < UInt64.size := by
  have := d.inRange
  simp only [seconds, nanosPerSecond] at *
  omega

theorem subNanos_lt (d : Span) : d.subNanos < nanosPerSecond := Nat.mod_lt _ (by decide)

theorem nanos_parts (d : Span) : d.seconds * nanosPerSecond + d.subNanos = d.nanos :=
  Nat.div_add_mod' _ _

theorem ofParts?_eq {d : Span} {seconds nanos : Nat}
    (h : seconds * nanosPerSecond + nanos = d.nanos) : ofParts? seconds nanos = some d := by
  have hfits := d.inRange
  unfold ofParts?
  rw [dif_pos (by omega)]
  exact congrArg some (ext h)

/-- Seconds and nanoseconds give the span back. -/
theorem ofParts?_parts (d : Span) : ofParts? d.seconds d.subNanos = some d :=
  ofParts?_eq d.nanos_parts

end Span

end LifecycleLog
