import LegacyAudit.Text.Decimal

/-!
# UTF-8

Text as bytes and bytes as text. Decoding refuses overlong forms, surrogates and code points above
`0x10FFFF`, and says where the first ill-formed sequence starts and how long it is.

## Main definitions

- `encodeChar`, `encode` - the bytes of a character and of a text
- `Utf8Error` - where and how decoding stopped
- `nextChar` - reads one character
- `decode` - reads all characters
-/

namespace LegacyAudit.Text

def encodeChar (c : Char) : List UInt8 :=
  let n := c.toNat
  if n < 0x80 then [n.toUInt8]
  else if n < 0x800 then [(0xC0 + n / 0x40).toUInt8, (0x80 + n % 0x40).toUInt8]
  else if n < 0x10000 then
    [(0xE0 + n / 0x1000).toUInt8, (0x80 + n / 0x40 % 0x40).toUInt8, (0x80 + n % 0x40).toUInt8]
  else
    [(0xF0 + n / 0x40000).toUInt8, (0x80 + n / 0x1000 % 0x40).toUInt8,
      (0x80 + n / 0x40 % 0x40).toUInt8, (0x80 + n % 0x40).toUInt8]

def encodeChars (s : List Char) : List UInt8 :=
  s.flatMap encodeChar

def encode (s : String) : List UInt8 :=
  encodeChars s.toList

/-- Decoding stopped at byte `index`: after an ill-formed sequence of `length` bytes, or, without a
length, because the input ends inside a sequence. -/
structure Utf8Error where
  index : Nat
  length : Option Nat
  deriving DecidableEq, Repr

def Utf8Error.message (e : Utf8Error) : String :=
  match e.length with
  | some n => "invalid utf-8 sequence of " ++ decimal n ++ " bytes from index " ++ decimal e.index
  | none => "incomplete utf-8 byte sequence from index " ++ decimal e.index

def isContinuation (b : UInt8) : Bool :=
  decide (0x80 ≤ b) && decide (b ≤ 0xBF)

/-- Whether `b` may follow the first byte `a` of a sequence of three or four bytes. The bounds keep
out overlong forms, surrogates and code points beyond the last one. -/
def isSecond (a b : UInt8) : Bool :=
  if a = 0xE0 then decide (0xA0 ≤ b) && decide (b ≤ 0xBF)
  else if a = 0xED then decide (0x80 ≤ b) && decide (b ≤ 0x9F)
  else if a = 0xF0 then decide (0x90 ≤ b) && decide (b ≤ 0xBF)
  else if a = 0xF4 then decide (0x80 ≤ b) && decide (b ≤ 0x8F)
  else isContinuation b

def payload (b : UInt8) : Nat :=
  b.toNat % 0x40

/-- What stands at the front of a sequence of bytes: a character, or an ill-formed sequence of the
given length, where `none` means that the input ends too early. -/
inductive Lead where
  | char (c : Char) (width : Nat)
  | malformed (length : Option Nat)

def leadTwo (a : UInt8) : List UInt8 → Lead
  | [] => .malformed none
  | b :: _ =>
    if isContinuation b then .char (Char.ofNat (a.toNat % 0x20 * 0x40 + payload b)) 2
    else .malformed (some 1)

def leadThree (a : UInt8) : List UInt8 → Lead
  | [] => .malformed none
  | b :: rest =>
    if isSecond a b then
      match rest with
      | [] => .malformed none
      | c :: _ =>
        if isContinuation c then
          .char (Char.ofNat (a.toNat % 0x10 * 0x1000 + payload b * 0x40 + payload c)) 3
        else .malformed (some 2)
    else .malformed (some 1)

def leadFour (a : UInt8) : List UInt8 → Lead
  | [] => .malformed none
  | b :: rest =>
    if isSecond a b then
      match rest with
      | [] => .malformed none
      | c :: rest =>
        if isContinuation c then
          match rest with
          | [] => .malformed none
          | d :: _ =>
            if isContinuation d then
              .char (Char.ofNat (a.toNat % 8 * 0x40000 + payload b * 0x1000 + payload c * 0x40 +
                payload d)) 4
            else .malformed (some 3)
        else .malformed (some 2)
    else .malformed (some 1)

/-- Reads the sequence that starts with `a` and goes on with `rest`. -/
def nextChar (a : UInt8) (rest : List UInt8) : Lead :=
  if a < 0x80 then .char (Char.ofNat a.toNat) 1
  else if a < 0xC2 then .malformed (some 1)
  else if a < 0xE0 then leadTwo a rest
  else if a < 0xF0 then leadThree a rest
  else if a < 0xF5 then leadFour a rest
  else .malformed (some 1)

/-- Decodes bytes that start at byte `index` of the input; `done` holds the characters before
them, last first. -/
def decodeLoop (index : Nat) (done : List Char) : List UInt8 → Except Utf8Error (List Char)
  | [] => .ok done.reverse
  | a :: rest =>
    match nextChar a rest with
    | .char c width => decodeLoop (index + width) (c :: done) (rest.drop (width - 1))
    | .malformed length => .error ⟨index, length⟩
termination_by bytes => bytes.length
decreasing_by simp only [List.length_drop, List.length_cons]; omega

def decodeChars (bytes : List UInt8) : Except Utf8Error (List Char) :=
  decodeLoop 0 [] bytes

def decode (bytes : List UInt8) : Except Utf8Error String :=
  (decodeChars bytes).map String.ofList

/-- The text that the bytes encode, or the empty text if they encode none. -/
def decodeOrEmpty (bytes : List UInt8) : String :=
  match decode bytes with
  | .ok s => s
  | .error _ => ""

end LegacyAudit.Text
