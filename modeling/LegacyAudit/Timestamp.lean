import LegacyAudit.Text.Decimal

/-!
# Points in time

A point in time is a date and a time of day in UTC. A leap second is a second that goes on for
another thousand million nanoseconds.

## Main definitions

- `Date` - a day of the Gregorian calendar, with the days around it
- `Timestamp` - a point in time
- `Timestamp.text` - RFC 3339 with as many groups of three fraction digits as it takes
-/

namespace LegacyAudit

open LegacyAudit.Text

structure Date where
  year : Int
  month : Nat
  day : Nat
  deriving DecidableEq, Repr, Inhabited

namespace Date

def isLeap (year : Int) : Bool :=
  year % 4 = 0 && (year % 100 ≠ 0 || year % 400 = 0)

def daysIn (year : Int) (month : Nat) : Nat :=
  if month = 2 then (if isLeap year then 29 else 28)
  else if month = 4 || month = 6 || month = 9 || month = 11 then 30
  else 31

def firstYear : Int := -262143

def lastYear : Int := 262142

def isValid (d : Date) : Bool :=
  decide (firstYear ≤ d.year) && decide (d.year ≤ lastYear) && decide (1 ≤ d.month) &&
    decide (d.month ≤ 12) && decide (1 ≤ d.day) && decide (d.day ≤ daysIn d.year d.month)

def next (d : Date) : Date :=
  if d.day < daysIn d.year d.month then { d with day := d.day + 1 }
  else if d.month < 12 then ⟨d.year, d.month + 1, 1⟩
  else ⟨d.year + 1, 1, 1⟩

def previous (d : Date) : Date :=
  if 1 < d.day then { d with day := d.day - 1 }
  else if 1 < d.month then ⟨d.year, d.month - 1, daysIn d.year (d.month - 1)⟩
  else ⟨d.year - 1, 12, 31⟩

end Date

structure Timestamp where
  date : Date
  /-- Seconds since midnight. -/
  second : Nat
  /-- A leap second goes on counting beyond a thousand million. Every second may be one, also in the
  middle of a minute. -/
  nanosecond : Nat
  date_isValid : date.isValid = true := by decide
  second_lt : second < 86400 := by decide
  nanosecond_lt : nanosecond < 2000000000 := by decide
  deriving DecidableEq, Repr

namespace Timestamp

instance : Inhabited Timestamp :=
  ⟨{ date := ⟨1970, 1, 1⟩, second := 0, nanosecond := 0 }⟩

/-- The numeral of `n`, filled up with zeros in front. -/
def padded (width n : Nat) : String :=
  let digits := decimalChars n
  String.ofList (List.replicate (width - digits.length) '0' ++ digits)

/-- A year of four digits; outside of them with a sign. -/
def yearText (year : Int) : String :=
  if 0 ≤ year ∧ year ≤ 9999 then padded 4 year.natAbs
  else (if year < 0 then "-" else "+") ++ padded 4 year.natAbs

/-- The fraction of a second: nothing, or three, six or nine digits. -/
def fractionText (nanoseconds : Nat) : String :=
  if nanoseconds = 0 then ""
  else if nanoseconds % 1000000 = 0 then "." ++ padded 3 (nanoseconds / 1000000)
  else if nanoseconds % 1000 = 0 then "." ++ padded 6 (nanoseconds / 1000)
  else "." ++ padded 9 nanoseconds

def text (t : Timestamp) : String :=
  yearText t.date.year ++ "-" ++ padded 2 t.date.month ++ "-" ++ padded 2 t.date.day ++ "T" ++
    padded 2 (t.second / 3600) ++ ":" ++ padded 2 (t.second / 60 % 60) ++ ":" ++
    padded 2 (t.second % 60 + t.nanosecond / 1000000000) ++
    fractionText (t.nanosecond % 1000000000) ++ "Z"

end Timestamp

end LegacyAudit
