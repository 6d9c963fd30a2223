-- The shortest decimal that reads back as a given binary64 number. Of the
-- grids of 1, 2, ... 17 digits the first one wins that has a point among the
-- reals that round to the number; of two such points the nearer one wins.
import LifecycleLog.Decimal.Binary64

namespace LifecycleLog.Decimal

/-- The decimal `0.d₁d₂… * 10 ^ point`, as its digits and `point`. -/
structure Digits where
  digits : Nat
  length : Nat
  point : Int
  deriving DecidableEq, Repr

/-- The number of decimal digits; 0 has none. -/
def digitCount (n : Nat) : Nat :=
  if n = 0 then 0 else digitCount (n / 10) + 1

/-- The `k` with `10 ^ (k - 1) ≤ num / den < 10 ^ k`, for a positive number. -/
def magnitude (num den : Nat) : Int :=
  if den ≤ num then digitCount (num / den)
  else
    let j := digitCount den - digitCount num
    if den ≤ num * Nat.pow 10 j then 1 - (j : Int) else -(j : Int)

/-- The reals that round to a number, times a common denominator: the number
itself, and the ends of the interval. -/
structure Interval where
  value : Nat
  low : Nat
  high : Nat
  den : Nat
  /-- Whether the ends round to the number too. -/
  closed : Bool

/-- A power of two has a neighbour below at half the distance. -/
def Interval.of (x : Binary64) : Interval :=
  let below := if x.mantissa = Nat.pow 2 52 && Binary64.leastExponent < x.exponent then 1 else 2
  let at2 (n : Nat) : Nat := (Binary64.scale n 1 (x.exponent - 2)).1
  { value := at2 (4 * x.mantissa)
    low := at2 (4 * x.mantissa - below)
    high := at2 (4 * x.mantissa + 2)
    den := (Binary64.scale 1 1 (x.exponent - 2)).2
    closed := x.mantissa % 2 = 0 }

/-- Whether `n * 10 ^ e` lies in the interval. -/
def Interval.holds (i : Interval) (n : Nat) (e : Int) : Bool :=
  let point := n * Nat.pow 10 e.toNat * i.den
  let unit := Nat.pow 10 (-e).toNat
  if i.closed then i.low * unit ≤ point && point ≤ i.high * unit
  else i.low * unit < point && point < i.high * unit

/-- The point of the grid of multiples of `10 ^ e` that reads back, if any;
the nearer of two, a tie to the even digit. -/
def Interval.onGrid (i : Interval) (e : Int) : Option Nat :=
  let num := i.value * Nat.pow 10 (-e).toNat
  let den := i.den * Nat.pow 10 e.toNat
  let down := num / den
  let r := num % den
  match i.holds down e, i.holds (down + 1) e with
  | true, true =>
    if 2 * r < den then some down
    else if den < 2 * r then some (down + 1)
    else if down % 2 = 0 then some down else some (down + 1)
  | true, false => some down
  | false, true => some (down + 1)
  | false, false => none

/-- Strips the zeros at the end. -/
def trimZeros (n : Nat) : Nat :=
  if n = 0 then 0 else if n % 10 = 0 then trimZeros (n / 10) else n

/-- Tries grids of `17 - left` digits and more. -/
def search (i : Interval) (k : Int) : (left : Nat) → Digits
  | 0 => ⟨0, 0, k⟩
  | left + 1 =>
    let e := k - (17 - left)
    match i.onGrid e with
    | none => search i k left
    | some n =>
      let digits := trimZeros n
      ⟨digits, digitCount digits, e + digitCount n⟩

/-- The shortest digits of a positive number. -/
def shortest (x : Binary64) : Digits :=
  let i := Interval.of x
  search i (magnitude i.value i.den) 17

end LifecycleLog.Decimal
