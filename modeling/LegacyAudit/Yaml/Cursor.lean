import LegacyAudit.Yaml.Character

/-!
# Places in a text

A cursor is what remains of a text together with the place where it begins. A carriage return with
a line feed behind it is one line break of two characters. Columns count characters, but the
distance from the start of the text is counted in bytes.

## Main definitions

- `Mark` - a place: bytes, lines and columns, all counted from 0
- `Cursor` - the rest of a text and its place
- `Cursor.skipWhile`, `Cursor.skipBreak` - going on inside a line and to the next one
-/

namespace LegacyAudit.Yaml

structure Mark where
  /-- The bytes in front of it. -/
  index : Nat := 0
  line : Nat := 0
  column : Nat := 0
  deriving DecidableEq, Repr, Inhabited

namespace Mark

def next (m : Mark) (c : Char) : Mark :=
  { m with index := m.index + c.utf8Size, column := m.column + 1 }

def skip (m : Mark) (text : List Char) : Mark :=
  text.foldl next m

/-- The start of the next line, behind a line break of so many bytes. -/
def nextLine (m : Mark) (bytes : Nat) : Mark :=
  ⟨m.index + bytes, m.line + 1, 0⟩

end Mark

structure Cursor where
  rest : List Char
  mark : Mark := {}
  deriving Repr, Inhabited

namespace Cursor

def peek (c : Cursor) : Option Char :=
  c.rest.head?

def peekAt (c : Cursor) (n : Nat) : Option Char :=
  c.rest[n]?

/-- The cursor so many characters further on in the line. -/
def skip (c : Cursor) (count : Nat) : Cursor :=
  ⟨c.rest.drop count, c.mark.skip (c.rest.take count)⟩

/-- The characters up to the first one that is not wanted. -/
def while_ (c : Cursor) (wanted : Char → Bool) : List Char :=
  c.rest.takeWhile wanted

/-- The cursor in front of the first character that is not wanted. -/
def skipWhile (c : Cursor) (wanted : Char → Bool) : Cursor :=
  c.skip (c.while_ wanted).length

/-- The cursor at the start of the next line, if a line break comes next, and what the break is
read as. -/
def break? (c : Cursor) : Option (Char × Cursor) :=
  match c.rest with
  | '\r' :: '\n' :: rest => some ('\n', ⟨rest, c.mark.nextLine 2⟩)
  | b :: rest =>
    if isBreak b then some (breakAs b, ⟨rest, c.mark.nextLine b.utf8Size⟩) else none
  | [] => none

/-- The cursor behind the line break that comes next, if one does. -/
def skipBreak (c : Cursor) : Cursor :=
  match c.break? with
  | some (_, c) => c
  | none => c

/-- The cursor behind blanks and a comment. A comment ends where the line does. -/
def skipComment (c : Cursor) : Cursor :=
  let c := c.skipWhile isGap
  if c.peek = some '#' then c.skipWhile fun ch => !isBreak ch else c

/-- Whether three equal characters at the start of a line come next, as a word. -/
def atTriple (c : Cursor) (ch : Char) : Bool :=
  c.mark.column = 0 && c.rest.take 3 == [ch, ch, ch] && endsWord (c.peekAt 3)

/-- Whether a line comes next that starts or ends a document. -/
def atDocumentMark (c : Cursor) : Bool :=
  c.atTriple '-' || c.atTriple '.'

end Cursor

end LegacyAudit.Yaml
