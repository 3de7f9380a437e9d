import LegacyAudit.Json.Basic
import LegacyAudit.Text.Decimal

/-!
# Reading JSON

A recursive-descent reader. The members of an object keep their order; a number is whole if it is
written as an integer and fits 64 bits, signed or unsigned.

## Main definitions

- `Json.readString` - the rest of a string after its opening quote
- `Json.readNumber` - a number
- `Json.parse?` - the value of a whole text

## Design notes

Every function takes the number of steps it may still make. A step consumes a character, so the
length of the text is enough, which is what `Json.parse?` passes.
-/

namespace LegacyAudit.Json

open LegacyAudit.Text

/-- Drops the blanks allowed between tokens. -/
def skipBlanks (s : List Char) : List Char :=
  s.dropWhile fun c => c = ' ' || c = '\n' || c = '\r' || c = '\t'

def readUnit : List Char → Option (Nat × List Char)
  | a :: b :: c :: d :: rest => (numeral? 16 [a, b, c, d]).map (·, rest)
  | _ => none

def letterEscape? : Char → Option Char
  | '"' => some '"'
  | '\\' => some '\\'
  | '/' => some '/'
  | 'b' => some '\x08'
  | 'f' => some '\x0c'
  | 'n' => some '\n'
  | 'r' => some '\r'
  | 't' => some '\t'
  | _ => none

/-- Reads a character given by number, after `\u`. A pair of surrogates makes one character. -/
def readNumbered (s : List Char) : Option (Char × List Char) := do
  let (hi, rest) ← readUnit s
  if 0xD800 ≤ hi ∧ hi < 0xDC00 then
    match rest with
    | '\\' :: 'u' :: more =>
      let (lo, rest) ← readUnit more
      if 0xDC00 ≤ lo ∧ lo < 0xE000 then
        some (Char.ofNat (0x10000 + (hi - 0xD800) * 0x400 + (lo - 0xDC00)), rest)
      else none
    | _ => none
  else if 0xDC00 ≤ hi ∧ hi < 0xE000 then none
  else some (Char.ofNat hi, rest)

/-- Reads the rest of a string after its opening quote; `done` holds what was read, reversed. -/
def readString : Nat → List Char → List Char → Option (String × List Char)
  | 0, _, _ => none
  | fuel + 1, done, s =>
    match s with
    | [] => none
    | '"' :: rest => some (String.ofList done.reverse, rest)
    | '\\' :: 'u' :: rest => do
      let (c, rest) ← readNumbered rest
      readString fuel (c :: done) rest
    | '\\' :: e :: rest => do
      let c ← letterEscape? e
      readString fuel (c :: done) rest
    | c :: rest => if c.toNat < 0x20 then none else readString fuel (c :: done) rest

/-- Whether `n` fits a signed or an unsigned word of 64 bits. -/
def fitsWord (n : Int) : Bool :=
  decide (Int64.minValue.toInt ≤ n) && decide (n < UInt64.size)

/-- The number with the given sign and digits before the point, after it and in the exponent. -/
def numberOf (negative : Bool) (digits : List Char) (fraction : Option (List Char))
    (exponent : Option Int) : Option Json := do
  let fractionDigits := fraction.getD []
  let significand ← numeral? 10 (digits ++ fractionDigits)
  let n : Int := if negative then -significand else significand
  -- Minus zero differs from zero only as a real number.
  if fraction.isNone ∧ exponent.isNone ∧ fitsWord n ∧ !(negative && significand == 0) then
    some (.whole n)
  else
    some (.real ⟨negative, significand, exponent.getD 0 - fractionDigits.length⟩)

/-- Reads the exponent of a number, if there is one. -/
def readExponent (s : List Char) : Option (Option Int × List Char) :=
  match s with
  | e :: rest =>
    if e = 'e' || e = 'E' then
      let (negative, rest) := match rest with
        | '-' :: more => (true, more)
        | '+' :: more => (false, more)
        | _ => (false, rest)
      match numeral? 10 (rest.takeWhile Char.isDigit) with
      | some n => some (some (if negative then -n else n), rest.dropWhile Char.isDigit)
      | none => none
    else some (none, s)
  | [] => some (none, s)

def readNumber (s : List Char) : Option (Json × List Char) := do
  let (negative, s) := match s with
    | '-' :: rest => (true, rest)
    | _ => (false, s)
  let digits := s.takeWhile Char.isDigit
  let s := s.dropWhile Char.isDigit
  if digits.isEmpty || (digits.head? == some '0' && digits.length > 1) then none
  else
    match s with
    | '.' :: rest =>
      let fraction := rest.takeWhile Char.isDigit
      if fraction.isEmpty then none
      else
        let (exponent, s) ← readExponent (rest.dropWhile Char.isDigit)
        return (← numberOf negative digits (some fraction) exponent, s)
    | _ =>
      let (exponent, s) ← readExponent s
      return (← numberOf negative digits none exponent, s)

def readWord (word : String) (value : Json) (s : List Char) : Option (Json × List Char) :=
  if word.toList.isPrefixOf s then some (value, s.drop word.length) else none

mutual

/-- Reads a value; blanks may stand before it. -/
def readValue : Nat → List Char → Option (Json × List Char)
  | 0, _ => none
  | fuel + 1, s =>
    match skipBlanks s with
    | '"' :: rest => (readString (rest.length + 1) [] rest).map fun (t, rest) => (.string t, rest)
    | '[' :: rest =>
      match skipBlanks rest with
      | ']' :: rest => some (.array [], rest)
      | _ => (readItems fuel [] rest).map fun (items, rest) => (.array items, rest)
    | '{' :: rest =>
      match skipBlanks rest with
      | '}' :: rest => some (.object [], rest)
      | _ => (readMembers fuel [] rest).map fun (members, rest) => (.object members, rest)
    | 'n' :: rest => readWord "null" .null ('n' :: rest)
    | 't' :: rest => readWord "true" (.bool true) ('t' :: rest)
    | 'f' :: rest => readWord "false" (.bool false) ('f' :: rest)
    | rest => readNumber rest

def readItems : Nat → List Json → List Char → Option (List Json × List Char)
  | 0, _, _ => none
  | fuel + 1, done, s => do
    let (v, rest) ← readValue fuel s
    match skipBlanks rest with
    | ',' :: rest => readItems fuel (v :: done) rest
    | ']' :: rest => some ((v :: done).reverse, rest)
    | _ => none

def readMembers : Nat → List (String × Json) → List Char →
    Option (List (String × Json) × List Char)
  | 0, _, _ => none
  | fuel + 1, done, s =>
    match skipBlanks s with
    | '"' :: rest => do
      let (key, rest) ← readString (rest.length + 1) [] rest
      match skipBlanks rest with
      | ':' :: rest =>
        let (v, rest) ← readValue fuel rest
        match skipBlanks rest with
        | ',' :: rest => readMembers fuel ((key, v) :: done) rest
        | '}' :: rest => some (((key, v) :: done).reverse, rest)
        | _ => none
      | _ => none
    | _ => none

end

/-- The value of a whole text; blanks may stand around it. -/
def parse? (text : String) : Option Json := do
  let s := text.toList
  let (v, rest) ← readValue (s.length + 1) s
  if (skipBlanks rest).isEmpty then some v else none

end LegacyAudit.Json
