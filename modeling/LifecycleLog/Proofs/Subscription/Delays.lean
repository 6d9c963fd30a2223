-- The delays of a back-off, for every least delay, cap and count of failures. They
-- double from the least delay to the cap. The factor is a word of 32 bits, so the
-- doubling ends with 32 failures; beyond them a delay is exact just if the largest
-- factor reaches the cap, or there is nothing to double. Computed in words of 64 and
-- 32 bits, the delays are the same and no step overflows.
import LifecycleLog.Subscription.Backoff
import Mathlib.Data.Nat.PSub
import Mathlib.Order.Monotone.Defs

namespace LifecycleLog

namespace Backoff

/-! ## Factors -/

theorem factor_of_few {failures : Nat} (h : failures ≤ 32) :
    factor failures = Nat.pow 2 (failures - 1) := by
  unfold factor
  rw [if_pos (by omega)]

theorem factor_of_many {failures : Nat} (h : 33 ≤ failures) : factor failures = greatestCount := by
  unfold factor
  rw [if_neg (by omega)]

theorem factor_pos (failures : Nat) : 0 < factor failures := by
  rcases Nat.lt_or_ge 32 failures with hmany | hfew
  · rw [factor_of_many hmany]
    decide
  · rw [factor_of_few hfew]
    exact Nat.pow_pos (by decide)

theorem factor_le (failures : Nat) : factor failures ≤ greatestCount := by
  rcases Nat.lt_or_ge 32 failures with hmany | hfew
  · exact Nat.le_of_eq (factor_of_many hmany)
  · rw [factor_of_few hfew]
    have hpow : Nat.pow 2 (failures - 1) ≤ Nat.pow 2 31 :=
      Nat.pow_le_pow_right (by decide) (by omega)
    exact Nat.le_trans hpow (by decide)

/-- A factor is a word of 32 bits. -/
theorem factor_lt_size (failures : Nat) : factor failures < UInt32.size :=
  Nat.lt_of_le_of_lt (factor_le failures) (by decide)

theorem factor_mono : Monotone factor := by
  intro m n h
  rcases Nat.lt_or_ge 32 n with hmany | hfew
  · rw [factor_of_many hmany]
    exact factor_le m
  · rw [factor_of_few hfew, factor_of_few (Nat.le_trans h hfew)]
    exact Nat.pow_le_pow_right (by decide) (by omega)

/-- Beyond 32 failures the power of two that is due fits no word. -/
theorem greatestCount_lt_pow {failures : Nat} (h : 33 ≤ failures) :
    greatestCount < Nat.pow 2 (failures - 1) := by
  have hpow : Nat.pow 2 32 ≤ Nat.pow 2 (failures - 1) :=
    Nat.pow_le_pow_right (by decide) (by omega)
  exact Nat.lt_of_lt_of_le (by decide) hpow

/-! ## Delays -/

/-- The longest span bounds the product, but the cap is no longer than it. -/
theorem nanos_delay (b : Backoff) {failures : Nat} (h : 1 ≤ failures) :
    (b.delay failures).nanos = min b.most.nanos (b.least.nanos * factor failures) := by
  have hmost := b.most.nanos_le_longest
  unfold delay
  rw [if_neg (by omega), Span.nanos_shorter, Span.nanos_times]
  omega

theorem delay_le (b : Backoff) (failures : Nat) : (b.delay failures).nanos ≤ b.most.nanos := by
  rcases Nat.eq_zero_or_pos failures with rfl | hpos
  · exact Nat.zero_le _
  · rw [nanos_delay b hpos]
    exact Nat.min_le_left _ _

theorem delay_mono (b : Backoff) : Monotone fun failures => (b.delay failures).nanos := by
  intro m n h
  rcases Nat.eq_zero_or_pos m with rfl | hpos
  · exact Nat.zero_le _
  · have hfactor := Nat.mul_le_mul_left b.least.nanos (factor_mono h)
    simp only [nanos_delay b hpos, nanos_delay b (Nat.le_trans hpos h)]
    omega

/-- After a failure the delay is positive just if the least one and the cap are. -/
theorem delay_pos_iff (b : Backoff) {failures : Nat} (h : 1 ≤ failures) :
    0 < (b.delay failures).nanos ↔ 0 < b.least.nanos ∧ 0 < b.most.nanos := by
  rw [nanos_delay b h, Nat.lt_min, Nat.mul_pos_iff_of_pos_right (factor_pos failures), and_comm]

/-- Where the count of failures stops, the delay grows no more. -/
theorem delay_min (b : Backoff) (failures : Nat) :
    b.delay (min failures greatestCount) = b.delay failures := by
  rcases Nat.le_total failures greatestCount with hle | hge
  · rw [Nat.min_eq_left hle]
  · have hmany : 33 ≤ greatestCount := by decide
    refine Span.ext ?_
    rw [Nat.min_eq_right hge, nanos_delay b (by omega), nanos_delay b (by omega),
      factor_of_many hmany, factor_of_many (Nat.le_trans hmany hge)]

theorem count_min (n : Nat) : count (min n greatestCount) = min (n + 1) greatestCount := by
  unfold count
  omega

theorem delay_stays_at_most (b : Backoff) {m n : Nat} (h : m ≤ n) (full : b.delay m = b.most) :
    b.delay n = b.most := by
  have hgrown : (b.delay m).nanos ≤ (b.delay n).nanos := delay_mono b h
  rw [full] at hgrown
  exact Span.ext (Nat.le_antisymm (delay_le b n) hgrown)

/-! ## Exact delays -/

/-- The delay that is meant, in any number of nanoseconds: the least one, doubled
with each failure after the first, or the cap if that is less. -/
def exactNanos (b : Backoff) (failures : Nat) : Nat :=
  min b.most.nanos (b.least.nanos * Nat.pow 2 (failures - 1))

/-- The largest factor takes the least delay as far as the cap. -/
def ReachesCap (b : Backoff) : Prop := b.most.nanos ≤ b.least.nanos * greatestCount

theorem delay_exact_of_few (b : Backoff) {failures : Nat} (h : 1 ≤ failures) (few : failures ≤ 32) :
    (b.delay failures).nanos = b.exactNanos failures := by
  rw [nanos_delay b h, factor_of_few few, exactNanos]

theorem delay_eq_most_iff (b : Backoff) {failures : Nat} (h : 33 ≤ failures) :
    b.delay failures = b.most ↔ b.ReachesCap := by
  have hpos : 1 ≤ failures := by omega
  have hnanos := nanos_delay b hpos
  rw [factor_of_many h] at hnanos
  unfold ReachesCap
  constructor
  · intro heq
    rw [heq] at hnanos
    omega
  · intro hle
    refine Span.ext ?_
    omega

theorem delay_exact_iff_of_many (b : Backoff) {failures : Nat} (h : 33 ≤ failures) :
    (b.delay failures).nanos = b.exactNanos failures ↔ b.least.nanos = 0 ∨ b.ReachesCap := by
  have hpow := greatestCount_lt_pow h
  rw [nanos_delay b (by omega), factor_of_many h, exactNanos, ReachesCap]
  rcases Nat.eq_zero_or_pos b.least.nanos with hzero | hpos
  · simp [hzero]
  · -- the factor is too small, so only the cap can make the two equal
    have hlt := Nat.mul_lt_mul_of_pos_left hpow hpos
    omega

/-- A delay is exact up to 32 failures, and beyond them just if nothing is to be
doubled or the cap is reached. -/
theorem delay_exact_iff (b : Backoff) {failures : Nat} (h : 1 ≤ failures) :
    (b.delay failures).nanos = b.exactNanos failures ↔
      failures ≤ 32 ∨ b.least.nanos = 0 ∨ b.ReachesCap := by
  rcases Nat.lt_or_ge 32 failures with hmany | hfew
  · rw [delay_exact_iff_of_many b hmany]
    exact (or_iff_right (Nat.not_le.2 hmany)).symm
  · exact iff_of_true (delay_exact_of_few b h hfew) (Or.inl hfew)

/-- A cap that the largest factor does not reach: 33 failures fall a nanosecond short. -/
example : (Backoff.mk (Span.ofNanos 1) Span.longest).delay 33 = Span.ofNanos 4294967295 := by decide

end Backoff

/-! ## Words -/

/-- A result, if a word of so many values holds it. -/
def word? (values result : Nat) : Option Nat := if result < values then some result else none

theorem word?_of_lt {values result : Nat} (h : result < values) : word? values result = some result :=
  if_pos h

theorem word?_of_le {values result : Nat} (h : values ≤ result) : word? values result = none :=
  if_neg (Nat.not_lt.2 h)

namespace Span

/-- The seconds of a multiple, and those that its nanoseconds carry. -/
def carried? (seconds k carry : Nat) : Option Nat := do
  let whole ← word? UInt64.size (seconds * k)
  word? UInt64.size (whole + carry)

/-- A multiple, in seconds of 64 bits and nanoseconds of 32. Seconds that do not
fit make it the longest span; any other result that does not fit makes it `none`. -/
def timesInWords? (d : Span) (k : Nat) : Option Span := do
  let spread ← word? UInt64.size (d.subNanos * k)
  let nanos ← word? UInt32.size (spread % nanosPerSecond)
  match carried? d.seconds k (spread / nanosPerSecond) with
  | none => some longest
  | some seconds => ofParts? seconds nanos

/-- The shorter span, found by the seconds and then by the nanoseconds. -/
def shorterByParts (d e : Span) : Span :=
  if d.seconds < e.seconds ∨ d.seconds = e.seconds ∧ d.subNanos ≤ e.subNanos then d else e

theorem shorterByParts_eq (d e : Span) : d.shorterByParts e = d.shorter e := by
  have hd := d.nanos_parts
  have he := e.nanos_parts
  have hdlt := d.subNanos_lt
  have helt := e.subNanos_lt
  have hle : d.seconds < e.seconds ∨ d.seconds = e.seconds ∧ d.subNanos ≤ e.subNanos ↔
      d.nanos ≤ e.nanos := by
    simp only [nanosPerSecond] at hd he hdlt helt
    omega
  unfold shorterByParts shorter
  simp only [hle]

/-- Seconds that do not fit before the carry do not fit after it. -/
theorem carried?_eq (seconds k carry : Nat) :
    carried? seconds k carry = word? UInt64.size (seconds * k + carry) := by
  unfold carried?
  rcases Nat.lt_or_ge (seconds * k) UInt64.size with hlt | hge
  · rw [word?_of_lt hlt]
    rfl
  · rw [word?_of_le hge, word?_of_le (Nat.le_trans hge (Nat.le_add_right _ _))]
    rfl

/-- The parts of a multiple, with the carry from the nanoseconds to the seconds. -/
theorem nanos_mul (d : Span) (k : Nat) :
    (d.seconds * k + d.subNanos * k / nanosPerSecond) * nanosPerSecond
      + d.subNanos * k % nanosPerSecond = d.nanos * k := by
  calc (d.seconds * k + d.subNanos * k / nanosPerSecond) * nanosPerSecond
        + d.subNanos * k % nanosPerSecond
      = d.seconds * k * nanosPerSecond + d.subNanos * k := by
        rw [Nat.add_mul, Nat.add_assoc, Nat.div_add_mod']
    _ = (d.seconds * nanosPerSecond + d.subNanos) * k := by
        rw [Nat.add_mul, Nat.mul_right_comm]
    _ = d.nanos * k := by rw [nanos_parts]

/-- A multiple whose seconds fit is exact. -/
theorem nanos_times_of_lt {d : Span} {k : Nat}
    (h : d.seconds * k + d.subNanos * k / nanosPerSecond < UInt64.size) :
    (d.times k).nanos = d.nanos * k := by
  have hparts := d.nanos_mul k
  have hrest : d.subNanos * k % nanosPerSecond < nanosPerSecond := Nat.mod_lt _ (by decide)
  have hfits := Nat.mul_le_mul_right nanosPerSecond (Nat.succ_le_of_lt h)
  have hlongest : longest.nanos + 1 = UInt64.size * nanosPerSecond := by decide
  rw [Nat.succ_mul] at hfits
  rw [nanos_times]
  omega

theorem times_eq_longest {d : Span} {k : Nat}
    (h : UInt64.size ≤ d.seconds * k + d.subNanos * k / nanosPerSecond) : d.times k = longest := by
  have hparts := d.nanos_mul k
  have hover := Nat.mul_le_mul_right nanosPerSecond h
  have hlongest : longest.nanos + 1 = UInt64.size * nanosPerSecond := by decide
  refine Span.ext ?_
  rw [nanos_times]
  omega

/-- Of the words of a multiple only its seconds may not fit. -/
theorem timesInWords?_eq (d : Span) {k : Nat} (h : k < UInt32.size) :
    d.timesInWords? k = some (d.times k) := by
  have hspread : d.subNanos * k < UInt64.size :=
    Nat.lt_trans (Nat.mul_lt_mul'' d.subNanos_lt h) (by decide)
  have hnanos : d.subNanos * k % nanosPerSecond < UInt32.size :=
    Nat.lt_trans (Nat.mod_lt _ (by decide)) (by decide)
  unfold timesInWords?
  rw [word?_of_lt hspread, Option.bind_eq_bind, Option.bind_some, word?_of_lt hnanos,
    Option.bind_some, carried?_eq]
  rcases Nat.lt_or_ge (d.seconds * k + d.subNanos * k / nanosPerSecond) UInt64.size with hlt | hge
  · rw [word?_of_lt hlt]
    exact ofParts?_eq ((d.nanos_mul k).trans (nanos_times_of_lt hlt).symm)
  · rw [word?_of_le hge, times_eq_longest hge]

end Span

namespace Backoff

/-- The factor, as a one that is shifted by the failures after the first. A word
cannot be shifted by its width or more; then the factor is the largest word. -/
def factorInWords? (failures : UInt32) : Option Nat := do
  let shift ← failures.toNat.ppred
  if shift < 32 then word? UInt32.size (1 <<< shift) else some greatestCount

/-- The delay after so many failures, in words. `none` if a step overflows, apart
from the seconds of the product. -/
def delayInWords? (b : Backoff) (failures : UInt32) : Option Span :=
  if failures = 0 then some Span.zero
  else do
    let factor ← factorInWords? failures
    let product ← b.least.timesInWords? factor
    some (product.shorterByParts b.most)

theorem factorInWords?_eq {failures : UInt32} (h : 0 < failures.toNat) :
    factorInWords? failures = some (factor failures.toNat) := by
  unfold factorInWords?
  rw [Nat.ppred_eq_pred h, Nat.pred_eq_sub_one, Option.bind_eq_bind, Option.bind_some]
  rcases Nat.lt_or_ge 32 failures.toNat with hmany | hfew
  · rw [if_neg (by omega), factor_of_many hmany]
  · have hshift : 1 <<< (failures.toNat - 1) = factor failures.toNat := by
      rw [factor_of_few hfew]
      exact Nat.one_shiftLeft _
    rw [if_pos (by omega), hshift, word?_of_lt (factor_lt_size _)]

theorem delayInWords?_eq (b : Backoff) (failures : UInt32) :
    b.delayInWords? failures = some (b.delay failures.toNat) := by
  unfold delayInWords?
  split
  case isTrue hzero =>
    subst hzero
    rfl
  case isFalse hne =>
    have hpos : 0 < failures.toNat :=
      Nat.pos_of_ne_zero fun hzero => hne (UInt32.toNat_inj.1 hzero)
    rw [factorInWords?_eq hpos, Option.bind_eq_bind, Option.bind_some,
      Span.timesInWords?_eq _ (factor_lt_size _), Option.bind_eq_bind, Option.bind_some,
      Span.shorterByParts_eq, delay, if_neg (Nat.ne_of_gt hpos)]

/-! ## The main law -/

/-- How the delays of a back-off go. There is none before a failure. After one they
double, exactly up to 32 failures, and for ever if the largest factor reaches the
cap. They never fall, never pass the cap and never leave it, and no step overflows. -/
structure Doubling (b : Backoff) : Prop where
  zero : b.delay 0 = Span.zero
  exact_iff : ∀ failures, 1 ≤ failures →
    ((b.delay failures).nanos = b.exactNanos failures ↔
      failures ≤ 32 ∨ b.least.nanos = 0 ∨ b.ReachesCap)
  mono : Monotone fun failures => (b.delay failures).nanos
  capped : ∀ failures, (b.delay failures).nanos ≤ b.most.nanos
  reached_iff : ∀ failures, 33 ≤ failures → (b.delay failures = b.most ↔ b.ReachesCap)
  kept : ∀ m n, m ≤ n → b.delay m = b.most → b.delay n = b.most
  inWords : ∀ failures : UInt32, b.delayInWords? failures = some (b.delay failures.toNat)

/-- Any two spans make a back-off whose delays double up to its cap, or as far as
a factor of 32 bits goes. -/
theorem delays_double_up_to_the_cap_or_the_largest_factor (b : Backoff) : b.Doubling where
  zero := rfl
  exact_iff _ h := delay_exact_iff b h
  mono := delay_mono b
  capped := delay_le b
  reached_iff _ h := delay_eq_most_iff b h
  kept _ _ h full := delay_stays_at_most b h full
  inWords := delayInWords?_eq b

end Backoff

end LifecycleLog
