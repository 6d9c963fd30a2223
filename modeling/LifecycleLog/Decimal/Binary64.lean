-- The finite numbers of the binary64 format, without sign: a mantissa below
-- 2^53 times a power of two. Every operation finds the exact result as a
-- fraction and rounds once, to the nearest number, a tie to an even mantissa.
namespace LifecycleLog

/-- The number `mantissa * 2 ^ exponent`. -/
structure Binary64 where
  mantissa : Nat
  exponent : Int
  deriving DecidableEq, Repr

namespace Binary64

def leastExponent : Int := -1074

def greatestExponent : Int := 971

def zero : Binary64 := ⟨0, leastExponent⟩

/-- A fraction `num / den` times `2 ^ e`, as a fraction. -/
def scale (num den : Nat) (e : Int) : Nat × Nat :=
  if 0 ≤ e then (num * Nat.pow 2 e.toNat, den) else (num, den * Nat.pow 2 (-e).toNat)

/-- The quotient rounded to the nearest integer, a tie to the even one. -/
def roundQuotient (num den : Nat) : Nat :=
  let q := num / den
  let r := num % den
  if 2 * r < den then q
  else if den < 2 * r then q + 1
  else if q % 2 = 0 then q else q + 1

/-- The exponent at which `num / den` has a mantissa of 53 bits, or the
least exponent if that is larger. -/
def exponentOf (num den : Nat) : Int :=
  let e : Int := max ((num.log2 : Int) - den.log2 - 52) leastExponent
  let (n, d) := scale num den (-e)
  if n / d < Nat.pow 2 52 && leastExponent < e then e - 1 else e

/-- The number nearest to `num / den`; `none` beyond the largest one. -/
def ofFraction (num den : Nat) : Option Binary64 :=
  if num = 0 then some zero
  else
    let e := exponentOf num den
    let (n, d) := scale num den (-e)
    let m := roundQuotient n d
    let x : Binary64 := if m = Nat.pow 2 53 then ⟨Nat.pow 2 52, e + 1⟩ else ⟨m, e⟩
    if greatestExponent < x.exponent then none else some x

def ofNat (n : Nat) : Option Binary64 := ofFraction n 1

/-- The number nearest to `significand * 10 ^ exponent`. -/
def ofDecimal (significand : Nat) (exponent : Int) : Option Binary64 :=
  if 0 ≤ exponent then ofNat (significand * Nat.pow 10 exponent.toNat)
  else ofFraction significand (Nat.pow 10 (-exponent).toNat)

/-- The number nearest to `10 ^ k`. -/
def tenTo (k : Nat) : Option Binary64 := ofNat (Nat.pow 10 k)

def mul (x y : Binary64) : Option Binary64 :=
  let (n, d) := scale (x.mantissa * y.mantissa) 1 (x.exponent + y.exponent)
  ofFraction n d

/-- The quotient; `none` for a zero divisor or beyond the largest number. -/
def div (x y : Binary64) : Option Binary64 :=
  if y.mantissa = 0 then none
  else
    let (n, d) := scale x.mantissa y.mantissa (x.exponent - y.exponent)
    ofFraction n d

/-- The largest power of ten in the format. -/
def greatestTen : Nat := 308

def divByTens (x : Binary64) (k : Nat) : Option Binary64 := (tenTo k).bind (div x)

/-- Divides by the largest power of ten `steps` times, then by `10 ^ last`. -/
def divBySteps (last : Nat) : (steps : Nat) → Binary64 → Option Binary64
  | 0, x => divByTens x last
  | steps + 1, x =>
    if x.mantissa = 0 then some x
    else (divByTens x greatestTen).bind (divBySteps last steps)

/-- Divides by `10 ^ k`, for a positive `k`. -/
def shiftDown (x : Binary64) (k : Nat) : Option Binary64 :=
  let steps := (k - 1) / greatestTen
  divBySteps (k - greatestTen * steps) steps x

/-- `significand * 10 ^ exponent` by one multiplication, or by divisions. The
significand is rounded first, so the last digit of a long number may differ
from the nearest one. `none` beyond the largest number. -/
def ofScientific (significand : Nat) (exponent : Int) : Option Binary64 :=
  match ofNat significand with
  | none => none
  | some x =>
    if exponent < 0 then shiftDown x (-exponent).toNat
    else if exponent.toNat ≤ greatestTen then (tenTo exponent.toNat).bind (mul x)
    else if x.mantissa = 0 then some x else none

end Binary64

end LifecycleLog
