/-!
Lengths of time, to the nanosecond, and their texts: one names every unit that occurs, from years
down to nanoseconds, and one gives a single decimal number in the unit that fits.
-/
namespace Abridge

/-- A length of time; `nanos` stays below a second. -/
structure Span where
  secs : Nat
  nanos : Nat
  deriving DecidableEq

namespace Span

def zero : Span := ⟨0, 0⟩

/-- Full seconds among the nanoseconds are carried over. -/
def ofParts (secs nanos : Nat) : Span := ⟨secs + nanos / 1000000000, nanos % 1000000000⟩

/-! ### All units by name -/

/-- Seconds in a year of 365.25 days. -/
def yearSecs : Nat := 31557600

/-- Seconds in a month of 30.44 days. -/
def monthSecs : Nat := 2630016

def daySecs : Nat := 86400

/-- A long unit, in the plural for more than one. -/
def longPart (n : Nat) (unit : String) : Option String :=
  if n = 0 then none else some (toString n ++ unit ++ if 1 < n then "s" else "")

/-- A short unit, which has no plural. -/
def shortPart (n : Nat) (unit : String) : Option String :=
  if n = 0 then none else some (toString n ++ unit)

/-- The units that occur, the longest first. -/
def parts (d : Span) : List String :=
  let inYear := d.secs % yearSecs
  let inMonth := inYear % monthSecs
  let inDay := inMonth % daySecs
  [longPart (d.secs / yearSecs) "year", longPart (inYear / monthSecs) "month",
    longPart (inMonth / daySecs) "day", shortPart (inDay / 3600) "h",
    shortPart (inDay % 3600 / 60) "m", shortPart (inDay % 60) "s",
    shortPart (d.nanos / 1000000) "ms", shortPart (d.nanos / 1000 % 1000) "us",
    shortPart (d.nanos % 1000) "ns"].filterMap id

/-- The units that occur, separated by spaces; no time at all is `0s`. -/
def text (d : Span) : String :=
  if d.secs = 0 ∧ d.nanos = 0 then "0s" else String.intercalate " " d.parts

/-! ### One decimal number -/

/-- Digits behind the point: `n` in `width` places, without the zeros at the end. -/
def fractionDigits (width n : Nat) : List Char :=
  let ds := Nat.toDigits 10 n
  ((List.replicate (width - ds.length) '0' ++ ds).reverse.dropWhile (· = '0')).reverse

/-- A number of units and a fraction of one in `width` places. -/
def decimal (whole width fraction : Nat) (unit : String) : String :=
  let ds := fractionDigits width fraction
  toString whole ++ (if ds = [] then "" else "." ++ String.ofList ds) ++ unit

/-- The span as a number of seconds, or of the largest smaller unit that it fills. -/
def inspect (d : Span) : String :=
  if 0 < d.secs then decimal d.secs 9 d.nanos "s"
  else if 1000000 ≤ d.nanos then decimal (d.nanos / 1000000) 6 (d.nanos % 1000000) "ms"
  else if 1000 ≤ d.nanos then decimal (d.nanos / 1000) 3 (d.nanos % 1000) "µs"
  else decimal d.nanos 1 0 "ns"

end Span

/-- A signed length of time: `secs` plus `nanos` billionths, `nanos` below a second. -/
structure Delta where
  secs : Int
  nanos : Nat

namespace Delta

/-- The length, if it is not negative. -/
def span? (d : Delta) : Option Span := if d.secs < 0 then none else some ⟨d.secs.toNat, d.nanos⟩

/-- The text of a negative length: its size in seconds, marked as a period of time. -/
def negativeText (d : Delta) : String :=
  "-PT" ++ if d.nanos = 0 then Span.decimal d.secs.natAbs 9 0 "S"
    else Span.decimal (d.secs.natAbs - 1) 9 (1000000000 - d.nanos) "S"

end Delta

end Abridge
