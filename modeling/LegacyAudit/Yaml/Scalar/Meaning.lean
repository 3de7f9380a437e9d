import LegacyAudit.Text.Binary64
import LegacyAudit.Text.Split

/-!
# What a plain scalar says

A plain scalar whose place asks for nothing in particular is a null, a truth value, a number or a
text, told apart by its spelling.

## Main definitions

- `nullNames`, `boolNames` - the spellings of null and of truth values
- `naturalValue?` - numerals of natural numbers, in four bases
- `isReal` - numerals with a fraction or an exponent that a double can hold, infinities and NaN
- `readsAsText` - whether a plain scalar is a text
-/

namespace LegacyAudit.Yaml

open LegacyAudit.Text

def nullNames : List String := ["null", "Null", "NULL", "~"]

def boolNames : List String := ["true", "True", "TRUE", "false", "False", "FALSE"]

/-- The bases that a numeral may name, by the letter that names them. -/
def namedBase? : Char → Option Nat
  | 'x' => some 16
  | 'o' => some 8
  | 'b' => some 2
  | _ => none

/-- The number of a numeral without a sign. In base ten it has no leading zero. -/
def unsignedValue? (digits : List Char) : Option Nat :=
  match digits with
  | ['0'] => some 0
  | '0' :: letter :: rest => (namedBase? letter).bind fun base => numeral? base rest
  | _ => numeral? 10 digits

/-- The number of a numeral that may have a plus sign. -/
def naturalValue? (text : List Char) : Option Nat :=
  unsignedValue? ((withoutPrefix? ['+'] text).getD text)

/-- Whether the text is the numeral of a whole number that 128 bits can hold. -/
def isWhole (text : List Char) : Bool :=
  match text with
  | '-' :: digits => (unsignedValue? digits).any (· ≤ Nat.pow 2 127)
  | text => (naturalValue? text).any (· < Nat.pow 2 128)

def withoutSign (text : List Char) : List Char :=
  match text with
  | '+' :: rest | '-' :: rest => rest
  | text => text

/-- Whether the text is all digits but no number, for it begins with a zero. -/
def isPadded (text : List Char) : Bool :=
  match withoutSign text with
  | '0' :: d :: rest => (d :: rest).all Char.isDigit
  | _ => false

/-- The exponent of a numeral: the letter, a sign and digits. -/
def exponentValue? (text : List Char) : Option Int :=
  match text with
  | [] => some 0
  | letter :: rest =>
    if letter = 'e' || letter = 'E' then
      match rest with
      | '-' :: digits => (numeral? 10 digits).map fun n => -(n : Int)
      | '+' :: digits => (numeral? 10 digits).map Int.ofNat
      | digits => (numeral? 10 digits).map Int.ofNat
    else none

/-- The value of a numeral without a sign: `n` and `e` stand for `n * 10 ^ e`. -/
def realValue? (text : List Char) : Option (Nat × Int) :=
  let whole := text.takeWhile Char.isDigit
  let afterWhole := text.dropWhile Char.isDigit
  let behindPoint := (withoutPrefix? ['.'] afterWhole).getD []
  let fraction := behindPoint.takeWhile Char.isDigit
  let afterFraction :=
    if afterWhole.head? = some '.' then behindPoint.dropWhile Char.isDigit else afterWhole
  match numeral? 10 (whole ++ fraction), exponentValue? afterFraction with
  | some n, some e => some (n, e - fraction.length)
  | _, _ => none

/-- The numbers from here on are too large for a double. -/
def overflowBound : Nat := (Nat.pow 2 54 - 1) * Nat.pow 2 970

/-- Whether a double can hold `n * 10 ^ e`, rounded. Only numbers of about the size of the bound are
compared with it. -/
def isFinite (n : Nat) (e : Int) : Bool :=
  let places : Int := (decimalChars n).length + e
  if n = 0 || places < 300 then true
  else if 310 < places then false
  else
    let q := Binary64.scale 10 e (n, 1)
    q.1 < overflowBound * q.2

def infinityNames : List (List Char) := [".inf".toList, ".Inf".toList, ".INF".toList]

def nanNames : List (List Char) := [".nan".toList, ".NaN".toList, ".NAN".toList]

/-- Whether the text is a numeral that doubles give a meaning to. -/
def isReal (text : List Char) : Bool :=
  infinityNames.contains (withoutSign text) || nanNames.contains text ||
    (realValue? (withoutSign text)).any fun (n, e) => isFinite n e

/-- Whether a plain scalar is a text and nothing else. -/
def readsAsText (text : String) : Bool :=
  let s := text.toList
  !(s.isEmpty || nullNames.contains text || boolNames.contains text || isWhole s || isPadded s ||
    isReal s)

end LegacyAudit.Yaml
