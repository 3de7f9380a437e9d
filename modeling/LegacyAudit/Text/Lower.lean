import LegacyAudit.Text.CaseContext
import LegacyAudit.Text.LowerTable

/-!
# Lower-casing text

Lower-casing works character by character, with one exception that looks at the context: a capital
sigma at the end of a word becomes the final sigma.

## Main definitions

- `lowerChar` - the lower-case form of a character out of context
- `endsWord` - whether a capital sigma between two stretches of text is the last letter of a word
- `lower` - the lower-case form of a text
-/

namespace LegacyAudit.Text

/-- The lower-case form of a character regardless of context. Only the dotted capital I has a form
of two characters. -/
def lowerChar (c : Char) : List Char :=
  if c.toNat < 0x80 then [c.toLower]
  else if c = 'İ' then ['i', '\u0307']
  else match lowerRuns.findSome? (·.lower? c.toNat) with
    | some n => [Char.ofNat n]
    | none => [c]

/-- Whether the first character that is not case-ignorable has case. -/
def startsCased (s : List Char) : Bool :=
  match s.find? fun c => !inRanges caseIgnorableRanges c with
  | some c => inRanges casedRanges c
  | none => false

/-- Whether a capital sigma ends a word: a cased letter stands before it and none after it.
`before` is the text in front of the sigma, nearest character first. -/
def endsWord (before after : List Char) : Bool :=
  startsCased before && !startsCased after

/-- The lower-case form of `c` standing between `before` (reversed) and `after`. -/
def lowerAt (before : List Char) (c : Char) (after : List Char) : List Char :=
  -- The capital sigma is the only letter whose lower case depends on what is around it.
  if c = 'Σ' then [if endsWord before after then 'ς' else 'σ'] else lowerChar c

/-- Lowers the third argument, which follows `before` (reversed); `done` collects the result in
reverse. -/
def lowerLoop (before done : List Char) : List Char → List Char
  | [] => done.reverse
  | c :: after => lowerLoop (c :: before) ((lowerAt before c after).reverse ++ done) after

def lowerChars (s : List Char) : List Char :=
  lowerLoop [] [] s

def lower (s : String) : String :=
  String.ofList (lowerChars s.toList)

/-- Lowers ASCII letters and keeps every other character. -/
def lowerAscii (s : List Char) : List Char :=
  s.map Char.toLower

end LegacyAudit.Text
