/-!
Points in time as a wall clock shows them, in the calendar that repeats every 400 years. A
leap second is a second 59 whose nanoseconds run past a full second.
-/
namespace Abridge

structure Stamp where
  year : Int
  month : Nat
  day : Nat
  hour : Nat
  minute : Nat
  second : Nat
  nanos : Nat
  deriving DecidableEq

namespace Stamp

/-- Decimal digits, filled with zeros to `width`. -/
def padded (width n : Nat) : String :=
  let ds := Nat.toDigits 10 n
  String.ofList (List.replicate (width - ds.length) '0' ++ ds)

/-- Years of four digits stand alone; all others have a sign. -/
def yearText (y : Int) : String :=
  if y < 0 then "-" ++ padded 4 y.natAbs
  else if y < 10000 then padded 4 y.toNat
  else "+" ++ padded 4 y.toNat

def dateText (t : Stamp) : String :=
  yearText t.year ++ "-" ++ padded 2 t.month ++ "-" ++ padded 2 t.day

/-- Date and time without the fraction of the second. -/
def secondsText (t : Stamp) : String :=
  t.dateText ++ "T" ++ padded 2 t.hour ++ ":" ++ padded 2 t.minute ++ ":" ++
    padded 2 (t.second + t.nanos / 1000000000)

/-- To the millisecond; what is finer is dropped. -/
def text (t : Stamp) : String :=
  t.secondsText ++ "." ++ padded 3 (t.nanos % 1000000000 / 1000000)

/-- With as many groups of three digits as the fraction needs. -/
def inspect (t : Stamp) : String :=
  let n := t.nanos % 1000000000
  t.secondsText ++
    if n = 0 then ""
    else if n % 1000000 = 0 then "." ++ padded 3 (n / 1000000)
    else if n % 1000 = 0 then "." ++ padded 6 (n / 1000)
    else "." ++ padded 9 n

/-! ### From a count of days -/

/-- Year, month and day of the date `days` after 1 January 1970. Years are counted from March, so
that a leap day ends its year; `era` is the period of 400 years. -/
def civil (days : Int) : Int × Nat × Nat :=
  let z := days + 719468
  let era := z / 146097
  let dayOfEra := (z % 146097).toNat
  let yearOfEra := (dayOfEra - dayOfEra / 1460 + dayOfEra / 36524 - dayOfEra / 146096) / 365
  let dayOfYear := dayOfEra - (365 * yearOfEra + yearOfEra / 4 - yearOfEra / 100)
  let shifted := (5 * dayOfYear + 2) / 153
  let day := dayOfYear - (153 * shifted + 2) / 5 + 1
  let month := if shifted < 10 then shifted + 3 else shifted - 9
  (era * 400 + yearOfEra + (if month ≤ 2 then 1 else 0), month, day)

/-- The first and the last year that a clock can show. -/
def firstYear : Int := -262143

def lastYear : Int := 262142

/-- The clock `secs` seconds and `nanos` nanoseconds after the start of 1970, if it can show that
time. -/
def ofEpoch? (secs : Int) (nanos : Nat) : Option Stamp :=
  let (year, month, day) := civil (secs / 86400)
  let s := (secs % 86400).toNat
  if firstYear ≤ year ∧ year ≤ lastYear then
    some ⟨year, month, day, s / 3600, s % 3600 / 60, s % 60, nanos⟩
  else none

/-- The same for a time before 1970. -/
def beforeEpoch? (secs nanos : Nat) : Option Stamp :=
  if nanos = 0 then ofEpoch? (-(secs : Int)) 0
  else ofEpoch? (-(secs : Int) - 1) (1000000000 - nanos)

end Stamp

end Abridge
