/-!
# Characters of YAML

## Main definitions

- `isAllowed` - the characters a YAML stream may hold
- `isBreak`, `breakAs` - line breaks and what they are read as
- `isGap` - the blanks inside a line
- `endsWord`, `endsLine` - what may follow a word or a line
- `isNameChar` - the characters of anchors and tag handles
-/

namespace LegacyAudit.Yaml

/-- Whether a stream may hold the character. -/
def isAllowed (c : Char) : Bool :=
  let n := c.toNat
  n == 0x09 || n == 0x0A || n == 0x0D || (decide (0x20 ≤ n) && decide (n ≤ 0x7E)) || n == 0x85 ||
    (decide (0xA0 ≤ n) && decide (n ≤ 0xD7FF)) || (decide (0xE000 ≤ n) && decide (n ≤ 0xFFFD)) ||
    decide (0x10000 ≤ n)

def isBreak (c : Char) : Bool :=
  c = '\n' || c = '\r' || c = '\x85' || c = '\u2028' || c = '\u2029'

/-- What a line break inside a scalar is read as: a line feed, unless it is one of the two
separators of Unicode. -/
def breakAs (c : Char) : Char :=
  if c = '\u2028' || c = '\u2029' then c else '\n'

def isGap (c : Char) : Bool :=
  c = ' ' || c = '\t'

/-- Whether a word ends in front of this character; `none` is the end of the stream. -/
def endsWord : Option Char → Bool
  | none => true
  | some c => isGap c || isBreak c

/-- Whether a line ends in front of this character. -/
def endsLine : Option Char → Bool
  | none => true
  | some c => isBreak c

/-- Whether anchors, tag handles and directive names may hold the character. -/
def isNameChar (c : Char) : Bool :=
  c.isAlphanum || c = '_' || c = '-'

end LegacyAudit.Yaml
