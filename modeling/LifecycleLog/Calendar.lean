-- Moments and their text: the date in the Gregorian calendar, carried on in
-- both directions, and the time of day with three fraction digits, in UTC.
namespace LifecycleLog

/-- A moment: seconds since 1970, and nanoseconds into the second. A second
that is a leap second runs up to 2 * 10^9 nanoseconds. -/
structure Moment where
  seconds : Int
  nanos : Nat
  deriving DecidableEq, Repr

namespace Calendar

structure Date where
  year : Int
  month : Nat
  day : Nat
  deriving DecidableEq, Repr

/-- Days from 1 March of year 0 to 1 January 1970. -/
def epochOffset : Int := 719468

/-- Days in 400 years. -/
def daysPerEra : Int := 146097

/-- The date so many days after 1 January 1970. Years are counted from March,
so that the leap day is the last day of its year. -/
def dateOf (days : Int) : Date :=
  let z := days + epochOffset
  let era := z / daysPerEra
  let dayOfEra := (z % daysPerEra).toNat
  let yearOfEra :=
    (dayOfEra - dayOfEra / 1460 + dayOfEra / 36524 - dayOfEra / 146096) / 365
  let dayOfYear := dayOfEra - (365 * yearOfEra + yearOfEra / 4 - yearOfEra / 100)
  let marchMonth := (5 * dayOfYear + 2) / 153
  let day := dayOfYear - (153 * marchMonth + 2) / 5 + 1
  let month := if marchMonth < 10 then marchMonth + 3 else marchMonth - 9
  let year := era * 400 + yearOfEra
  ⟨if month ≤ 2 then year + 1 else year, month, day⟩

/-- A number with zeros in front, up to a width. -/
def padded (width n : Nat) : String :=
  let digits := Nat.toDigits 10 n
  String.ofList (List.replicate (width - digits.length) '0' ++ digits)

/-- Four digits, with a sign for a year outside 0 to 9999. -/
def yearText (year : Int) : String :=
  if 0 ≤ year && year ≤ 9999 then padded 4 year.toNat
  else (if year < 0 then "-" else "+") ++ padded 4 year.natAbs

end Calendar

/-- The moment as `YYYY-MM-DDThh:mm:ss.fffZ`; a leap second is second 60. -/
def Moment.text (m : Moment) : String :=
  let date := Calendar.dateOf (m.seconds / 86400)
  let time := (m.seconds % 86400).toNat
  let leap := nanosInSecond ≤ m.nanos
  let second := if leap then time % 60 + 1 else time % 60
  let fraction := (if leap then m.nanos - nanosInSecond else m.nanos) / 1000000
  let two := Calendar.padded 2
  Calendar.yearText date.year ++ "-" ++ two date.month ++ "-" ++ two date.day ++ "T" ++
    two (time / 3600) ++ ":" ++ two (time / 60 % 60) ++ ":" ++ two second ++ "." ++
    Calendar.padded 3 fraction ++ "Z"
where
  nanosInSecond : Nat := 1000000000

end LifecycleLog
