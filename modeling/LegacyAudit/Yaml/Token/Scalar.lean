import LegacyAudit.Text.Decimal
import LegacyAudit.Yaml.Cursor
import LegacyAudit.Yaml.Fault

/-!
# Reading YAML scalars

Inside plain and quoted scalars a single line break is read as a space, and further breaks as
themselves. Block scalars keep their lines; a folded one joins lines of text.

## Main definitions

- `Gap` - blanks and line breaks between two words, with `Gap.text`
- `readPlain` - a plain scalar
- `readQuoted` - a scalar in single or double quotes
- `readBlock` - a literal or folded scalar

## Design notes

Texts grow at the end, so they are kept in reverse while they are read. Loops take the length of the
rest of the text as their bound: every turn reads at least one character.
-/

namespace LegacyAudit.Yaml

open LegacyAudit.Text

/-- Blanks and line breaks between two words. -/
structure Gap where
  /-- The blanks in front of the first line break, newest first. -/
  blanks : List Char := []
  /-- Whether there has been a line break. -/
  broken : Bool := false
  /-- The first line break; none if it was taken away by a backslash. -/
  first : Option Char := none
  /-- The line breaks behind the first one, newest first. -/
  more : List Char := []
  deriving Repr, Inhabited

namespace Gap

/-- Adds a blank. Behind a line break blanks are indentation and do not count. -/
def addBlank (g : Gap) (c : Char) : Gap :=
  if g.broken then g else { g with blanks := c :: g.blanks }

def addBreak (g : Gap) (c : Char) : Gap :=
  if g.broken then { g with more := c :: g.more } else { broken := true, first := some c }

def reversed (g : Gap) : List Char :=
  if !g.broken then g.blanks
  else if g.first = some '\n' then (if g.more.isEmpty then [' '] else g.more)
  else g.more ++ g.first.toList

def text (g : Gap) : List Char :=
  g.reversed.reverse

end Gap

/-- Reads blanks and line breaks. Behind a line break no tab may stand left of the column
`tabsFrom`. -/
def readGap (tabsFrom : Nat) (g : Gap) (m : Mark) : List Char → Except Fault (Gap × Cursor)
  | '\r' :: '\n' :: rest => readGap tabsFrom (g.addBreak '\n') (m.nextLine 2) rest
  | c :: rest =>
    if isBreak c then readGap tabsFrom (g.addBreak (breakAs c)) (m.nextLine c.utf8Size) rest
    else if isGap c then
      if g.broken && c = '\t' && decide (m.column < tabsFrom) then .error .token
      else readGap tabsFrom (g.addBlank c) (m.next c) rest
    else .ok (g, ⟨c :: rest, m⟩)
  | [] => .ok (g, ⟨[], m⟩)

/-! ### Plain scalars -/

/-- The marks of flow collections, which end a plain scalar inside one. -/
def isFlowMark (c : Char) : Bool :=
  c = ',' || c = '[' || c = ']' || c = '\x7b' || c = '\x7d'

/-- Reads a word of a plain scalar onto the reversed text. -/
def readWord (inFlow : Bool) (m : Mark) (text : List Char) :
    List Char → Except Fault (List Char × Cursor)
  | [] => .ok (text, ⟨[], m⟩)
  | c :: rest =>
    if isGap c || isBreak c then .ok (text, ⟨c :: rest, m⟩)
    else if inFlow && c = ':' &&
        (match rest with
          | d :: _ => isFlowMark d || d = '?'
          | [] => false) then .error .token
    else if (c = ':' && endsWord rest.head?) || (inFlow && isFlowMark c) then
      .ok (text, ⟨c :: rest, m⟩)
    else readWord inFlow (m.next c) (c :: text) rest

/-- Reads words and the gaps between them. The result is the reversed text, and whether the last gap
has a line break. -/
def readWords (inFlow : Bool) (level : Nat) : (fuel : Nat) → (text : List Char) → Gap → Cursor →
    Except Fault (List Char × Bool × Cursor)
  | 0, text, g, c => .ok (text, g.broken, c)
  | fuel + 1, text, g, c =>
    if c.atDocumentMark || c.peek = some '#' then .ok (text, g.broken, c)
    else do
      let (word, c') ← readWord inFlow c.mark [] c.rest
      if word.isEmpty then return (text, g.broken, c')
      let text := word ++ g.reversed ++ text
      let (g, c'') ← readGap level {} c'.mark c'.rest
      -- Without a gap behind it the word ends at a mark, and the scalar with it.
      if c''.mark.index = c'.mark.index then return (text, false, c'')
      -- The next line belongs to a block further out.
      if !inFlow && decide (c''.mark.column < level) then return (text, g.broken, c'')
      readWords inFlow level fuel text g c''

/-- Reads a plain scalar. Outside of flow collections its further lines start at the column `level`
or right of it. The flag says whether it ends with a line break. -/
def readPlain (inFlow : Bool) (level : Nat) (c : Cursor) :
    Except Fault (List Char × Bool × Cursor) := do
  let (text, broken, c) ← readWords inFlow level (c.rest.length + 1) [] {} c
  return (text.reverse, broken, c)

/-! ### Quoted scalars -/

/-- The character of a hexadecimal escape with so many digits, and the length of the escape. -/
def readCode (digits : Nat) (s : List Char) : Option (Char × Nat) :=
  let code := s.take digits
  if code.length = digits then
    match numeral? 16 code with
    | some n => if n.isValidChar then some (Char.ofNat n, digits + 1) else none
    | none => none
  else none

/-- The character that an escape stands for and the length of the escape, both without the
backslash. -/
def readEscape : List Char → Option (Char × Nat)
  | [] => none
  | c :: rest =>
    match c with
    | '0' => some ('\x00', 1)
    | 'a' => some ('\x07', 1)
    | 'b' => some ('\x08', 1)
    | 't' => some ('\t', 1)
    | '\t' => some ('\t', 1)
    | 'n' => some ('\n', 1)
    | 'v' => some ('\x0b', 1)
    | 'f' => some ('\x0c', 1)
    | 'r' => some ('\r', 1)
    | 'e' => some ('\x1b', 1)
    | ' ' => some (' ', 1)
    | '"' => some ('"', 1)
    | '/' => some ('/', 1)
    | '\\' => some ('\\', 1)
    | 'N' => some ('\x85', 1)
    | '_' => some ('\xa0', 1)
    | 'L' => some ('\u2028', 1)
    | 'P' => some ('\u2029', 1)
    | 'x' => readCode 2 rest
    | 'u' => readCode 4 rest
    | 'U' => readCode 8 rest
    | _ => none

/-- Whether a backslash comes next with a line break behind it. -/
def takesBreakAway : List Char → Bool
  | '\\' :: c :: _ => isBreak c
  | _ => false

/-- Reads what stands in single quotes up to a blank, a line break or the closing quote, onto the
reversed text. The first argument counts characters that have been dealt with. -/
def readSingle : (skip : Nat) → Mark → (text : List Char) → List Char → List Char × Cursor
  | _, m, text, [] => (text, ⟨[], m⟩)
  | skip + 1, m, text, c :: rest => readSingle skip (m.next c) text rest
  | 0, m, text, c :: rest =>
    if isGap c || isBreak c then (text, ⟨c :: rest, m⟩)
    else if c = '\'' then
      if rest.head? = some '\'' then readSingle 1 (m.next c) ('\'' :: text) rest
      else (text, ⟨c :: rest, m⟩)
    else readSingle 0 (m.next c) (c :: text) rest

/-- Reads what stands in double quotes up to a blank, a line break, taken away or not, or the
closing quote, onto the reversed text. -/
def readDouble : (skip : Nat) → Mark → (text : List Char) → List Char →
    Except Fault (List Char × Cursor)
  | _, m, text, [] => .ok (text, ⟨[], m⟩)
  | skip + 1, m, text, c :: rest => readDouble skip (m.next c) text rest
  | 0, m, text, c :: rest =>
    if isGap c || isBreak c || c = '"' then .ok (text, ⟨c :: rest, m⟩)
    else if c = '\\' then
      -- The break is left for the gap that begins here.
      if takesBreakAway (c :: rest) then .ok (text, ⟨c :: rest, m⟩)
      else
        match readEscape rest with
        | some (ch, length) => readDouble length (m.next c) (ch :: text) rest
        | none => .error .token
    else readDouble 0 (m.next c) (c :: text) rest

/-- Reads the inside of a quoted scalar onto the reversed text, and the closing quote. -/
def readQuotedWords (single : Bool) : (fuel : Nat) → (text : List Char) → Cursor →
    Except Fault (List Char × Cursor)
  | 0, _, _ => .error .token
  | fuel + 1, text, c =>
    if c.atDocumentMark || c.rest.isEmpty then .error .token
    else do
      let (text, c) ←
        if single then pure (readSingle 0 c.mark text c.rest) else readDouble 0 c.mark text c.rest
      -- A gap may begin with a break that is taken away and is not part of the text.
      let (start, c) : Gap × Cursor :=
        if !single && takesBreakAway c.rest then ({ broken := true }, (c.skip 1).skipBreak)
        else ({}, c)
      if c.peek = some (if single then '\'' else '"') then return (text, c.skip 1)
      let (g, c) ← readGap 0 start c.mark c.rest
      readQuotedWords single fuel (g.reversed ++ text) c

/-- Reads a quoted scalar from behind its opening quote. -/
def readQuoted (single : Bool) (c : Cursor) : Except Fault (List Char × Cursor) := do
  let (text, c) ← readQuotedWords single (c.rest.length + 1) [] c
  return (text.reverse, c)

/-! ### Block scalars -/

/-- What becomes of the line breaks at the end of a block scalar. -/
inductive Chomping where
  | strip
  | clip
  | keep
  deriving DecidableEq, Repr

def readChomping (c : Cursor) : Option Chomping × Cursor :=
  match c.peek with
  | some '+' => (some .keep, c.skip 1)
  | some '-' => (some .strip, c.skip 1)
  | _ => (none, c)

/-- Reads an indentation indicator, if there is one. It must not be zero. -/
def readIncrement (c : Cursor) : Except Fault (Option Nat × Cursor) :=
  match c.peek with
  | some d =>
    if !d.isDigit then .ok (none, c)
    else if d = '0' then .error .token
    else .ok (digitValue? d, c.skip 1)
  | none => .ok (none, c)

/-- Reads the indicators of a block scalar, in either order. -/
def readHeader (c : Cursor) : Except Fault (Chomping × Option Nat × Cursor) := do
  match readChomping c with
  | (some chomping, c) =>
    let (increment, c) ← readIncrement c
    return (chomping, increment, c)
  | (none, c) =>
    let (increment, c) ← readIncrement c
    match increment with
    | none => return (.clip, none, c)
    | some n =>
      let (chomping, c) := readChomping c
      return (chomping.getD .clip, some n, c)

/-- Reads indentation and empty lines. The indentation ends at the column `indent`; without one all
spaces are indentation. The result is the breaks in reverse and the largest column reached. -/
def readEmptyLines (indent : Option Nat) (deepest : Nat) (breaks : List Char) (m : Mark) :
    List Char → Except Fault (List Char × Nat × Cursor)
  | '\r' :: '\n' :: rest =>
    readEmptyLines indent (max deepest m.column) ('\n' :: breaks) (m.nextLine 2) rest
  | c :: rest =>
    let deepest := max deepest m.column
    let shallow := match indent with
      | some n => decide (m.column < n)
      | none => true
    if shallow && c = ' ' then readEmptyLines indent deepest breaks (m.next c) rest
    else if shallow && c = '\t' then .error .token
    else if isBreak c then
      readEmptyLines indent deepest (breakAs c :: breaks) (m.nextLine c.utf8Size) rest
    else .ok (breaks, deepest, ⟨c :: rest, m⟩)
  | [] => .ok (breaks, max deepest m.column, ⟨[], m⟩)

/-- The state of reading a block scalar: its text so far, the last line break, the empty lines
behind it in reverse, and whether the last line began with a blank. -/
structure BlockReader where
  text : List Char := []
  last : Option Char := none
  empty : List Char := []
  blank : Bool := false

/-- The reversed text with the last line break and the empty lines in front of a new line. A folded
scalar joins two lines of text unless the new one, or the old one, begins with a blank. -/
def BlockReader.joined (b : BlockReader) (folded blank : Bool) : List Char :=
  if folded && b.last = some '\n' && !b.blank && !blank then
    (if b.empty.isEmpty then [' '] else b.empty) ++ b.text
  else b.empty ++ b.last.toList ++ b.text

def readLines (folded : Bool) (indent : Nat) : (fuel : Nat) → BlockReader → Cursor →
    Except Fault (BlockReader × Cursor)
  | 0, b, c => .ok (b, c)
  | fuel + 1, b, c =>
    if c.mark.column ≠ indent || c.rest.isEmpty then .ok (b, c)
    else do
      let blank := match c.peek with
        | some ch => isGap ch
        | none => false
      let line := c.while_ fun ch => !isBreak ch
      let text := line.reverse ++ b.joined folded blank
      let c := c.skip line.length
      let (last, c) := match c.break? with
        | some (br, c) => (some br, c)
        | none => (none, c)
      let (empty, _, c) ← readEmptyLines (some indent) 0 [] c.mark c.rest
      readLines folded indent fuel ⟨text, last, empty, blank⟩ c

/-- Reads a block scalar from behind its mark. `level` is the least column that lines of its
surroundings could not have. -/
def readBlock (folded : Bool) (level : Nat) (c : Cursor) : Except Fault (List Char × Cursor) := do
  let (chomping, increment, c) ← readHeader c
  let c := c.skipComment
  if !endsLine c.peek then throw .token
  let c := c.skipBreak
  -- The indicator counts from the column of the block around the scalar.
  let given := increment.map fun n => level - 1 + n
  let (empty, deepest, c) ← readEmptyLines given 0 [] c.mark c.rest
  -- Otherwise the first line with text shows the column, unless blanks above it go further right.
  let indent := given.getD (max (max deepest level) 1)
  let (b, c) ← readLines folded indent (c.rest.length + 1) { empty } c
  let text := match chomping with
    | .strip => b.text
    | .clip => b.last.toList ++ b.text
    | .keep => b.empty ++ b.last.toList ++ b.text
  return (text.reverse, c)

end LegacyAudit.Yaml
