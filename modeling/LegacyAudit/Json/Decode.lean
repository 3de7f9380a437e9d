import LegacyAudit.Json.Basic
import LegacyAudit.Text.Binary64
import LegacyAudit.Text.Quoted

/-!
# From JSON values to typed values

A decoder takes a JSON value apart or says what stands in its way. Records are read from an object
by key, or from an array by position. Keys that a record does not know are passed over.

## Main definitions

- `DecodeError` - why a value could not be decoded, with `DecodeError.message`
- `decodeString`, `decodeList`, `decodeWord`, `decodeChoice`, `decodeNullable` - parts of records
- `Field` - a member of a record: its key, its decoder and its value when it is absent
- `decodeRecord` - records

## Design notes

Members are visited in the order of their keys, so the first fault in that order is the one that is
reported; absent members come after all faults, in the order of the record. `decodeRecord` therefore
takes its fields twice: as checks, which it sorts, and inside the function that builds the record.
-/

namespace LegacyAudit

open LegacyAudit.Text

/-- What a value is, as far as an error message tells. -/
inductive Found where
  | null
  | bool (value : Bool)
  | integer (value : Int)
  | real (value : Decimal)
  | string (value : String)
  | sequence
  | map
  deriving DecidableEq, Repr

def Json.found : Json → Found
  | .null => .null
  | .bool b => .bool b
  | .whole n => .integer n
  | .real d => .real d
  | .string s => .string s
  | .array _ => .sequence
  | .object _ => .map

def Found.describe : Found → String
  | .null => "null"
  | .bool true => "boolean `true`"
  | .bool false => "boolean `false`"
  | .integer n => "integer `" ++ (if n < 0 then "-" else "") ++ decimal n.natAbs ++ "`"
  | .real d =>
    "floating point `" ++
      Binary64.text d.negative (.ofDecimal d.significand d.exponent) ++ "`"
  | .string s => "string " ++ quoted s
  | .sequence => "sequence"
  | .map => "map"

inductive DecodeError where
  /-- A value of another kind than expected. -/
  | invalidType (found : Found) (expected : String)
  /-- A value of the expected kind outside its range. -/
  | invalidValue (found : Found) (expected : String)
  /-- An array with too few or too many items. -/
  | invalidLength (length : Nat) (expected : String)
  /-- A record without a member that it needs. -/
  | missingField (name : String)
  /-- A name outside a closed list of names. -/
  | unknownVariant (name : String) (variants : List String)
  /-- A string in a notation of its own that cannot be read. -/
  | unreadable (reason : String)
  deriving DecidableEq, Repr

/-- A name between backquotes. -/
def backquoted (name : String) : String :=
  "`" ++ name ++ "`"

def expectedNames : List String → String
  | [] => "there are no variants"
  | [a] => "expected " ++ backquoted a
  | [a, b] => "expected " ++ backquoted a ++ " or " ++ backquoted b
  | names => "expected one of " ++ ", ".intercalate (names.map backquoted)

def DecodeError.message : DecodeError → String
  | .invalidType found expected => "invalid type: " ++ found.describe ++ ", expected " ++ expected
  | .invalidValue found expected => "invalid value: " ++ found.describe ++ ", expected " ++ expected
  | .invalidLength length expected =>
    "invalid length " ++ decimal length ++ ", expected " ++ expected
  | .missingField name => "missing field " ++ backquoted name
  | .unknownVariant name variants =>
    "unknown variant " ++ backquoted name ++ ", " ++ expectedNames variants
  | .unreadable reason => reason

abbrev Decoder (α : Type) := Json → Except DecodeError α

def decodeString : Decoder String
  | .string s => .ok s
  | v => .error (.invalidType v.found "a string")

def decodeItems {α : Type} (decode : Decoder α) : List Json → Except DecodeError (List α)
  | [] => .ok []
  | v :: rest => do
    let x ← decode v
    let xs ← decodeItems decode rest
    return x :: xs

def decodeList {α : Type} (decode : Decoder α) : Decoder (List α)
  | .array items => decodeItems decode items
  | v => .error (.invalidType v.found "a sequence")

/-- Reads a natural number below `bound`; `type` is the word for it in messages. -/
def decodeWord (type : String) (bound : Nat) : Decoder Nat
  | .whole n =>
    if 0 ≤ n ∧ n.toNat < bound then .ok n.toNat else .error (.invalidValue (.integer n) type)
  | v => .error (.invalidType v.found type)

def decodeByte : Decoder UInt8 :=
  fun v => (decodeWord "u8" UInt8.size v).map UInt8.ofNat

def decodeWord32 : Decoder UInt32 :=
  fun v => (decodeWord "u32" UInt32.size v).map UInt32.ofNat

def decodeWord64 : Decoder UInt64 :=
  fun v => (decodeWord "u64" UInt64.size v).map UInt64.ofNat

/-- Reads a count or a position, which has 64 bits too. -/
def decodeSize : Decoder UInt64 :=
  fun v => (decodeWord "usize" UInt64.size v).map UInt64.ofNat

/-- Reads `null` as an absent value. -/
def decodeNullable {α : Type} (decode : Decoder α) : Decoder (Option α)
  | .null => .ok none
  | v => (decode v).map some

def choose {α : Type} (choices : List (String × α)) (name : String) : Except DecodeError α :=
  match choices.find? (·.1 == name) with
  | some (_, x) => .ok x
  | none => .error (.unknownVariant name (choices.map (·.1)))

/-- Reads a name from a closed list, or an object whose only member has the name as its key and
`null` as its value. -/
def decodeChoice {α : Type} (choices : List (String × α)) : Decoder α
  | .string name => choose choices name
  | .object [(name, v)] => do
    let x ← choose choices name
    match v with
    | .null => return x
    | v => .error (.invalidType v.found "unit")
  | .object _ => .error (.invalidValue .map "map with a single key")
  | v => .error (.invalidType v.found "string or map")

/-- A member of a record. Without a value for `absent` the member is required. -/
structure Field (α : Type) where
  name : String
  decode : Decoder α
  absent : Option α

namespace Field

def required {α : Type} (name : String) (decode : Decoder α) : Field α :=
  ⟨name, decode, none⟩

/-- A member that takes a fixed value when it is absent. -/
def default {α : Type} (name : String) (decode : Decoder α) (value : α) : Field α :=
  ⟨name, decode, some value⟩

/-- A member that may be absent or `null`. -/
def nullable {α : Type} (name : String) (decode : Decoder α) : Field (Option α) :=
  ⟨name, decodeNullable decode, some none⟩

/-- The value of the member in a record whose members are found by `lookup`. -/
def get {α : Type} (field : Field α) (lookup : String → Option Json) : Except DecodeError α :=
  match lookup field.name, field.absent with
  | some v, _ => field.decode v
  | none, some x => .ok x
  | none, none => .error (.missingField field.name)

end Field

/-- A field without its type: whether a value suits it, and whether an array may end before it. -/
structure FieldCheck where
  name : String
  check : Json → Except DecodeError Unit
  omissible : Bool

def Field.toCheck {α : Type} (field : Field α) : FieldCheck :=
  ⟨field.name, fun v => (field.decode v).map fun _ => (), field.absent.isSome⟩

/-- The check of a field before which an array must not end, though an object may lack it. -/
def Field.toPlacedCheck {α : Type} (field : Field α) : FieldCheck :=
  { field.toCheck with omissible := false }

/-- Runs the checks of those fields that are present, in the given order. -/
def checkPresent (lookup : String → Option Json) : List FieldCheck → Except DecodeError Unit
  | [] => .ok ()
  | c :: rest =>
    match lookup c.name with
    | some v => do
      c.check v
      checkPresent lookup rest
    | none => checkPresent lookup rest

/-- Runs the checks of the fields on the items of an array, place by place. `place` is the place of
the first item and `expected` what the whole array should be. -/
def checkPlaces (expected : String) (place : Nat) : List FieldCheck → List Json →
    Except DecodeError Unit
  | [], _ => .ok ()
  | c :: rest, v :: items => do
    c.check v
    checkPlaces expected (place + 1) rest items
  | c :: rest, [] =>
    if c.omissible then checkPlaces expected (place + 1) rest []
    else .error (.invalidLength place expected)

def recordOfLength (name : String) (count : Nat) : String :=
  "struct " ++ name ++ " with " ++ decimal count ++ (if count = 1 then " element" else " elements")

/-- Reads a record: from an object, with its members checked in the order of their keys, or from an
array, place by place in the order of the fields. -/
def decodeRecord {α : Type} (name : String) (fields : List FieldCheck)
    (build : (String → Option Json) → Except DecodeError α) : Decoder α
  | .object members => do
    let lookup := (Json.object members).member?
    checkPresent lookup (fields.mergeSort fun a b => decide (a.name ≤ b.name))
    build lookup
  | .array items => do
    checkPlaces (recordOfLength name fields.length) 0 fields items
    let placed := (fields.map (·.name)).zip items
    let x ← build fun key => (placed.find? (·.1 == key)).map (·.2)
    if items.length ≤ fields.length then return x
    else .error (.invalidLength items.length "fewer elements in array")
  | v => .error (.invalidType v.found ("struct " ++ name))

end LegacyAudit
