import LegacyAudit.Json.Decode
import LegacyAudit.Text.Split

/-!
# Job identifiers

An identifier is a number of 128 bits. It is written as 32 hexadecimal digits in five groups; the
digits may also be read without hyphens, in braces or behind a URN scheme.

## Main definitions

- `JobId` - an identifier, with `JobId.text`
- `JobId.parse?` - reads any of the accepted forms
-/

namespace LegacyAudit

open LegacyAudit.Text

structure JobId where
  value : BitVec 128
  deriving DecidableEq, Repr, Inhabited

namespace JobId

/-- The 32 hexadecimal digits of an identifier. -/
def digits (id : JobId) : List Char :=
  (List.range 32).map fun place => digitChar (id.value.toNat / Nat.pow 16 (31 - place) % 16)

/-- The lengths of the groups of digits. -/
def groupLengths : List Nat :=
  [8, 4, 4, 4, 12]

/-- Cuts a list into groups of the given lengths. -/
def cut : List Nat → List Char → List (List Char)
  | [], _ => []
  | n :: rest, s => s.take n :: cut rest (s.drop n)

def text (id : JobId) : String :=
  String.ofList (['-'].intercalate (cut groupLengths id.digits))

def ofDigits? (digits : List Char) : Option JobId :=
  (numeral? 16 digits).map fun n => ⟨BitVec.ofNat 128 n⟩

/-- Reads five groups of digits with hyphens between them. -/
def ofGroups? (text : List Char) : Option JobId :=
  let groups := splitAtEvery '-' text
  if groups.map List.length = groupLengths then ofDigits? groups.flatten else none

def insideBraces? : List Char → Option (List Char)
  | '\x7b' :: rest => if rest.getLast? = some '\x7d' then some rest.dropLast else none
  | _ => none

/-- Reads an identifier: 32 digits, or five groups of them, which may stand in braces or behind the
URN scheme in one case. -/
def parse? (text : String) : Option JobId :=
  let s := text.toList
  if s.length = 32 then ofDigits? s
  else
    match insideBraces? s with
    | some inner => ofGroups? inner
    | none =>
      match withoutPrefix? "urn:uuid:".toList s, withoutPrefix? "URN:UUID:".toList s with
      | some rest, _ | none, some rest => ofGroups? rest
      | none, none => ofGroups? s

def toJson (id : JobId) : Json :=
  .string id.text

def decode : Decoder JobId
  | .string s =>
    match parse? s with
    | some id => .ok id
    | none => .error (.unreadable "UUID parsing failed")
  | v => .error (.invalidType v.found "a UUID string")

end JobId

end LegacyAudit
