import LegacyAudit.Json.Decode
import LegacyAudit.Text.Blank
import LegacyAudit.Text.Split
import LegacyAudit.Timestamp

/-!
# Reading points in time

The notation is RFC 3339, read generously: blanks may stand between the parts, numbers may be short,
years may have a sign and any number of digits, and the offset may be `UTC`.

## Main definitions

- `Timestamp.ReadError` - why a text is no point in time
- `Timestamp.read` - reads a text
- `Timestamp.decode` - reads a JSON string
-/

namespace LegacyAudit.Timestamp

open LegacyAudit.Text

inductive ReadError where
  | invalid
  | tooShort
  | outOfRange
  | impossible
  | trailing
  deriving DecidableEq, Repr

def ReadError.message : ReadError → String
  | invalid => "input contains invalid characters"
  | tooShort => "premature end of input"
  | outOfRange => "input is out of range"
  | impossible => "no possible date and time matching input"
  | trailing => "trailing input"

abbrev Reading := StateT (List Char) (Except ReadError)

def skipBlanks : Reading Unit :=
  modify (·.dropWhile isBlank)

/-- Numbers from here on are too large for any use. -/
def numberLimit : Nat := 9223372036854775808

/-- Reads a number of at least one digit and at most `width` digits. -/
def readNumber (width : Nat) : Reading Nat := do
  let s ← get
  let digits := (s.take width).takeWhile Char.isDigit
  match numeral? 10 digits with
  | none => throw (if s.isEmpty then .tooShort else .invalid)
  | some n =>
    if n < numberLimit then
      set (s.drop digits.length)
      return n
    else throw .outOfRange

/-- Reads a number of one or two digits that must lie between two bounds. -/
def readBetween (least most : Nat) : Reading { n : Nat // least ≤ n ∧ n ≤ most } := do
  skipBlanks
  let n ← readNumber 2
  if h : least ≤ n ∧ n ≤ most then return ⟨n, h⟩ else throw .outOfRange

def readLiteral (c : Char) : Reading Unit := do
  skipBlanks
  match ← get with
  | [] => throw .tooShort
  | d :: rest => if d = c then set rest else throw .invalid

/-- Reads a year: up to four digits, or a sign and as many digits as there are. -/
def readYear : Reading Int := do
  skipBlanks
  let year ← match ← get with
    | '-' :: rest => do
      set rest
      let n ← readNumber rest.length
      pure (-(n : Int))
    | '+' :: rest => do
      set rest
      let n ← readNumber rest.length
      pure (n : Int)
    | _ => do
      let n ← readNumber 4
      pure (n : Int)
  if -2147483648 ≤ year ∧ year ≤ 2147483647 then return year else throw .outOfRange

def readDate : Reading Date := do
  let year ← readYear
  readLiteral '-'
  let month ← readBetween 1 12
  readLiteral '-'
  let day ← readBetween 1 31
  return ⟨year, month.val, day.val⟩

/-- Reads what stands between a date and a time of day. -/
def readSeparator : Reading Unit := do
  match ← get with
  | [] => throw .tooShort
  | c :: rest => if c = 't' || c = 'T' || c = ' ' then set rest else throw .invalid

/-- Reads a fraction of a second, if there is one, as nanoseconds. Digits behind the ninth do not
count. -/
def readFraction : Reading { n : Nat // n < 1000000000 } := do
  match ← get with
  | '.' :: s =>
    set s
    let n ← readNumber 9
    let rest ← get
    set (rest.dropWhile Char.isDigit)
    let nanosecond := n * Nat.pow 10 (9 - (s.length - rest.length))
    if h : nanosecond < 1000000000 then return ⟨nanosecond, h⟩ else throw .outOfRange
  | _ => return ⟨0, by decide⟩

/-- What a clock shows. -/
structure Clock where
  hour : Nat
  minute : Nat
  /-- Up to 60, which is a leap second. -/
  second : Nat
  nanosecond : Nat
  hour_lt : hour < 24
  minute_lt : minute < 60
  second_le : second ≤ 60
  nanosecond_lt : nanosecond < 1000000000

def readClock : Reading Clock := do
  let ⟨hour, hhour⟩ ← readBetween 0 23
  readLiteral ':'
  let ⟨minute, hminute⟩ ← readBetween 0 59
  readLiteral ':'
  let ⟨second, hsecond⟩ ← readBetween 0 60
  let ⟨nanosecond, hnanosecond⟩ ← readFraction
  return ⟨hour, minute, second, nanosecond, Nat.lt_succ_of_le hhour.2, Nat.lt_succ_of_le hminute.2,
    hsecond.2, hnanosecond⟩

def readTwoDigits : Reading (Nat × Nat) := do
  match ← get with
  | [] => throw .tooShort
  | [c] => throw (if c.utf8Size = 1 then .tooShort else .invalid)
  | a :: b :: rest =>
    if a.isDigit && b.isDigit then
      set rest
      return (a.toNat - 48, b.toNat - 48)
    else throw .invalid

/-- Reads the hours and minutes of an offset, as minutes. -/
def readOffsetMinutes : Reading Int := do
  let (h, h') ← readTwoDigits
  modify (·.dropWhile fun c => c = ':' || isBlank c)
  let (m, m') ← readTwoDigits
  if 6 ≤ m then throw .outOfRange
  return ((h * 10 + h') * 60 + (m * 10 + m') : Nat)

/-- Reads an offset, as minutes. -/
def readOffset : Reading Int := do
  skipBlanks
  let s ← get
  if (s.take 3).map Char.toUpper = ['U', 'T', 'C'] then
    set (s.drop 3)
    return 0
  else
    match s with
    | [] => throw .tooShort
    | c :: rest =>
      set rest
      if c = 'Z' || c = 'z' then return 0
      else if c = '+' then readOffsetMinutes
      else if c = '-' || c = '\u2212' then return -(← readOffsetMinutes)
      else throw .invalid

/-- The day of a second that is counted from the midnight before `date`, but may be a day off. -/
def dayOf (date : Date) (second : Int) : Date :=
  if second < 0 then date.previous
  else if 86400 ≤ second then date.next
  else date

/-- The point in time with the parts of a written one, whose clock is `offset` minutes ahead of
UTC. -/
def ofParts (date : Date) (clock : Clock) (offset : Int) : Except ReadError Timestamp :=
  if !date.isValid || decide (offset ≤ -1440) || decide (1440 ≤ offset) then .error .outOfRange
  else
    -- A leap second is the second before it, going on for another thousand million nanoseconds.
    let leap := clock.second / 60
    let second : Int := clock.hour * 3600 + clock.minute * 60 + (clock.second - leap) - offset * 60
    -- The offset may lead out of the calendar.
    if h : (dayOf date second).isValid then
      .ok {
        date := dayOf date second
        second := (second % 86400).toNat
        nanosecond := clock.nanosecond + leap * 1000000000
        date_isValid := h
        second_lt := by omega
        nanosecond_lt := by
          have := clock.second_le
          have := clock.nanosecond_lt
          omega }
    else .error .impossible

/-- Reads the parts of a point in time up to the end of the text. -/
def readParts : Reading (Date × Clock × Int) := do
  let date ← readDate
  readSeparator
  let clock ← readClock
  let offset ← readOffset
  skipBlanks
  if (← get).isEmpty then return (date, clock, offset) else throw .trailing

def read (text : String) : Except ReadError Timestamp := do
  let ((date, clock, offset), _) ← readParts.run text.toList
  ofParts date clock offset

def toJson (t : Timestamp) : Json :=
  .string t.text

def decode : Decoder Timestamp
  | .string s =>
    match read s with
    | .ok t => .ok t
    | .error e => .error (.unreadable e.message)
  | v => .error (.invalidType v.found "an RFC 3339 formatted date and time string")

end LegacyAudit.Timestamp
