import LegacyAudit.Text.Decimal
import LegacyAudit.Text.Utf8
import LegacyAudit.Yaml.Cursor
import LegacyAudit.Yaml.Fault
import LegacyAudit.Yaml.Token.Basic

/-!
# Names in YAML: anchors, tags and directives

## Main definitions

- `readAnchorName` - the name of an anchor or alias
- `readTag` - a tag
- `readDirective` - a directive with its whole line
-/

namespace LegacyAudit.Yaml

open LegacyAudit.Text

def readAnchorName (c : Cursor) : Except Fault (List Char × Cursor) :=
  let name := c.while_ isNameChar
  let c := c.skip name.length
  let follows := endsWord c.peek ||
    (match c.peek with
      | some ch => ['?', ':', ',', ']', '\x7d', '%', '@', '\x60'].contains ch
      | none => true)
  if name ≠ [] && follows then .ok (name, c) else .error .token

/-- The punctuation that a tag may hold anywhere. -/
def tagPunctuation : List Char :=
  [';', '/', '?', ':', '@', '&', '=', '+', '$', '.', '%', '!', '~', '*', '\'', '(', ')']

/-- Whether a tag may hold the character; commas and brackets only where `verbatim` holds. -/
def isTagChar (verbatim : Bool) (c : Char) : Bool :=
  isNameChar c || tagPunctuation.contains c ||
    (verbatim && [',', '[', ']'].contains c)

/-- The number of bytes of the character that starts with this byte. -/
def sequenceLength (byte : UInt8) : Nat :=
  if byte &&& 0x80 = 0x00 then 1
  else if byte &&& 0xE0 = 0xC0 then 2
  else if byte &&& 0xF0 = 0xE0 then 3
  else if byte &&& 0xF8 = 0xF0 then 4
  else 0

/-- Reads the characters of a tag as bytes. A percent sign and two digits stand for a byte; such
bytes have to come in whole characters, of which `pending` bytes are still to come. -/
def tagBytes : (pending : Nat) → List Char → Except Fault (List UInt8)
  | 0, [] => .ok []
  | _ + 1, [] => .error .token
  | pending, '%' :: a :: b :: rest =>
    match numeral? 16 [a, b] with
    | none => .error .token
    | some n =>
      let byte := UInt8.ofNat n
      match pending with
      | 0 =>
        match sequenceLength byte with
        | 0 => .error .token
        | length + 1 => (tagBytes length rest).map (byte :: ·)
      | pending + 1 =>
        if byte &&& 0xC0 = 0x80 then (tagBytes pending rest).map (byte :: ·) else .error .token
  | 0, c :: rest => if c = '%' then .error .token else (tagBytes 0 rest).map (encodeChar c ++ ·)
  | _ + 1, _ :: _ => .error .token

/-- Reads the rest of a tag, of which only what stands in front of a zero byte counts. It must not
be empty unless `optional` holds. -/
def readTagRest (verbatim optional : Bool) (c : Cursor) : Except Fault (List UInt8 × Cursor) := do
  let text := c.while_ (isTagChar verbatim)
  if text.isEmpty && !optional then throw .token
  let bytes ← tagBytes 0 text
  return (bytes.takeWhile (· ≠ 0), c.skip text.length)

/-- Reads a tag handle: an exclamation mark, and a name if another mark follows it. The flag says
whether the second mark is there. -/
def readHandle (c : Cursor) : Except Fault (List Char × Bool × Cursor) :=
  if c.peek ≠ some '!' then .error .token
  else
    let name := (c.skip 1).while_ isNameChar
    let behind := c.skip (1 + name.length)
    if behind.peek = some '!' then .ok ('!' :: name ++ ['!'], true, behind.skip 1)
    else .ok ('!' :: name, false, behind)

def readTagParts (c : Cursor) : Except Fault (Token × Cursor) := do
  if c.peekAt 1 = some '<' then
    let (suffix, c) ← readTagRest true false (c.skip 2)
    if c.peek = some '>' then return (.tag [] suffix, c.skip 1) else throw .token
  else
    let (handle, closed, c) ← readHandle c
    let (suffix, c) ← readTagRest false (!closed) c
    if closed then return (.tag handle suffix, c)
    else
      -- Without a second mark the name is part of the suffix, and a mark alone is a tag.
      match encodeChars (handle.drop 1) ++ suffix with
      | [] => return (.tag [] [33], c)
      | whole => return (.tag ['!'] whole, c)

/-- Reads a tag. In a flow collection a comma may follow it. -/
def readTag (inFlow : Bool) (c : Cursor) : Except Fault (Token × Cursor) := do
  let (token, c) ← readTagParts c
  if endsWord c.peek || (inFlow && c.peek = some ',') then return (token, c) else throw .token

def readVersionNumber (c : Cursor) : Except Fault (Nat × Cursor) :=
  let digits := c.while_ Char.isDigit
  match numeral? 10 digits with
  | some n => if digits.length ≤ 9 then .ok (n, c.skip digits.length) else .error .token
  | none => .error .token

def readVersion (c : Cursor) : Except Fault (Token × Cursor) := do
  let (major, c) ← readVersionNumber (c.skipWhile isGap)
  if c.peek ≠ some '.' then throw .token
  let (minor, c) ← readVersionNumber (c.skip 1)
  return (.versionDirective major minor, c)

def readTagDirective (c : Cursor) : Except Fault (Token × Cursor) := do
  let (handle, closed, c) ← readHandle (c.skipWhile isGap)
  if !closed && handle ≠ ['!'] then throw .token
  if !(match c.peek with
      | some ch => isGap ch
      | none => false) then throw .token
  let (expansion, c) ← readTagRest true false (c.skipWhile isGap)
  if !endsWord c.peek then throw .token
  return (.tagDirective handle expansion, c)

/-- Reads a directive and the rest of its line, from behind the percent sign. -/
def readDirective (c : Cursor) : Except Fault (Token × Cursor) := do
  let name := c.while_ isNameChar
  let behind := c.skip name.length
  if name = [] || !endsWord behind.peek then throw .token
  let (token, c) ←
    if name = "YAML".toList then readVersion behind
    else if name = "TAG".toList then readTagDirective behind
    else throw .token
  let c := c.skipComment
  if endsLine c.peek then return (token, c.skipBreak) else throw .token

end LegacyAudit.Yaml
