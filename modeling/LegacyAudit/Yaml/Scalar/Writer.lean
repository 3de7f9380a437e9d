import LegacyAudit.Yaml.Character
import LegacyAudit.Yaml.Scalar.Meaning
import LegacyAudit.Yaml.Token.Basic

/-!
# Writing scalars

A text is written plain if it then reads back as that text. A text with line feeds becomes a literal
block; quotes come in where neither will do, and escapes only where a character cannot be shown.

## Main definitions

- `allowsPlain`, `allowsSingleQuotes`, `allowsLiteral` - which styles can hold a text
- `styleFor` - the style of a text
- `scalarText` - a text in its style
-/

namespace LegacyAudit.Yaml

open LegacyAudit.Text

def isPrintable (c : Char) : Bool :=
  let n := c.toNat
  n == 0x0A || (decide (0x20 ≤ n) && decide (n ≤ 0x7E)) ||
    (decide (0xA0 ≤ n) && decide (n ≤ 0xFFFD) && n != 0xFEFF) || decide (0x10000 ≤ n)

/-- The characters that begin something other than a plain scalar. -/
def startIndicators : List Char :=
  ['#', ',', '[', ']', '{', '}', '&', '*', '!', '|', '>', '\'', '"', '%', '@', '`']

/-- Whether the text looks like something other than a scalar from its start. -/
def startsOtherwise (text : List Char) : Bool :=
  match text with
  | c :: rest =>
    startIndicators.contains c || ((c = '?' || c = ':' || c = '-') && endsWord rest.head?) ||
      "---".toList.isPrefixOf text || "...".toList.isPrefixOf text
  | [] => false

/-- Whether a key or a comment would begin inside the text, behind the character `before`. -/
def endsWithin (before : Char) : List Char → Bool
  | [] => false
  | c :: rest =>
    (c = ':' && endsWord rest.head?) || (c = '#' && endsWord (some before)) || endsWithin c rest

/-- Whether a mark inside the text would end a plain scalar. -/
def hasIndicator (text : List Char) : Bool :=
  startsOtherwise text ||
    match text with
    | c :: rest => endsWithin c rest
    | [] => false

/-- Whether a character with the first property stands right in front of one with the second. -/
def hasNeighbours (first second : Char → Bool) (text : List Char) : Bool :=
  (text.zip text.tail).any fun (a, b) => first a && second b

def isSpace (c : Char) : Bool :=
  c = ' '

/-- Whether the text needs escapes: it has a character that cannot be shown, or a space at the end
of a line. -/
def needsEscapes (text : List Char) : Bool :=
  text.any (!isPrintable ·) || hasNeighbours isSpace isBreak text

def allowsPlain (text : List Char) : Bool :=
  !(needsEscapes text || hasIndicator text || text.any isBreak || text.head?.any isSpace ||
    text.getLast?.any isSpace)

def allowsSingleQuotes (text : List Char) : Bool :=
  !(needsEscapes text || hasNeighbours isBreak isSpace text)

/-- Whether the text can stand in a literal block. -/
def allowsLiteral (text : List Char) : Bool :=
  !(needsEscapes text || text.getLast?.any isSpace)

def styleFor (text : String) : ScalarStyle :=
  let s := text.toList
  if s.contains '\n' then (if allowsLiteral s then .literal else .doubleQuoted)
  else if readsAsText text && allowsPlain s then .plain
  else if allowsSingleQuotes s then .singleQuoted
  else .doubleQuoted

/-- The text between single quotes, where quotes are doubled. A new line begins at column `indent`;
`fresh` says whether the next character begins one. -/
def singleQuotedBody (indent : Nat) (fresh : Bool) : List Char → List Char
  -- The closing quote is indented like a line.
  | [] => if fresh then List.replicate indent ' ' else []
  | c :: rest =>
    if isBreak c then c :: singleQuotedBody indent true rest
    else
      (if fresh then List.replicate indent ' ' else []) ++ (if c = '\'' then [c, c] else [c]) ++
        singleQuotedBody indent false rest

/-- The hexadecimal digits of `n` in upper case, at least `width` of them. -/
def upperHex (width n : Nat) : List Char :=
  let digits := (hexChars n).map Char.toUpper
  List.replicate (width - digits.length) '0' ++ digits

/-- The letters of the characters that have an escape of their own. -/
def escapeLetters : List (Char × Char) :=
  [('\x00', '0'), ('\x07', 'a'), ('\x08', 'b'), ('\t', 't'), ('\n', 'n'), ('\x0b', 'v'),
    ('\x0c', 'f'), ('\r', 'r'), ('\x1b', 'e'), ('"', '"'), ('\\', '\\'), ('\x85', 'N'),
    ('\u2028', 'L'), ('\u2029', 'P')]

def escapeChar (c : Char) : List Char :=
  match escapeLetters.lookup c with
  | some letter => ['\\', letter]
  | none =>
    let n := c.toNat
    if n ≤ 0xFF then '\\' :: 'x' :: upperHex 2 n
    else if n ≤ 0xFFFF then '\\' :: 'u' :: upperHex 4 n
    else '\\' :: 'U' :: upperHex 8 n

def doubleQuotedChar (c : Char) : List Char :=
  if isPrintable c && !isBreak c && c ≠ '"' && c ≠ '\\' then [c] else escapeChar c

/-- The lines of a literal block. A line begins at column `indent` unless it is empty; `fresh` says
whether the next character begins one. -/
def literalBody (indent : Nat) (fresh : Bool) : List Char → List Char
  | [] => []
  | c :: rest =>
    if isBreak c then c :: literalBody indent true rest
    else
      (if fresh then List.replicate indent ' ' else []) ++ c :: literalBody indent false rest

/-- The header of a literal block: how far it is indented, where that cannot be seen from its first
line, and what becomes of the line breaks at its end. -/
def literalHeader (text : List Char) : List Char :=
  -- Lines stand two columns right of the block around them.
  let indentation := if text.head?.any fun c => isSpace c || isBreak c then ['2'] else []
  let ending :=
    match text.reverse with
    | [] => ['-']
    | last :: before =>
      if !isBreak last then ['-'] else if before.head?.all isBreak then ['+'] else []
  '|' :: indentation ++ ending

/-- A text in its style, as the value of a key; its lines begin at column `indent`. -/
def scalarText (indent : Nat) (text : String) : List Char :=
  let s := text.toList
  match styleFor text with
  | .plain => s
  | .singleQuoted => '\'' :: singleQuotedBody indent false s ++ ['\'']
  | .literal | .folded => literalHeader s ++ '\n' :: literalBody indent true s
  | .doubleQuoted => '"' :: s.flatMap doubleQuotedChar ++ ['"']

end LegacyAudit.Yaml
