import LegacyAudit.Text.Utf8

/-!
# Path patterns

A pattern is a list of tokens that together match a whole path. Paths are matched byte by byte, and
no wildcard stops at a slash.

## Main definitions

- `Glob` - a pattern; `Glob.Token` - its parts
- `Glob.matchesBytes`, `Glob.matches` - whether a pattern matches a path

## Design notes

Matching keeps, for every place of the path, whether the tokens so far can end there. Each token
takes such marks to the next ones, so the work grows with the product of the two lengths.
-/

namespace LegacyAudit

open LegacyAudit.Text

namespace Glob

inductive Token where
  | literal (c : Char)
  /-- One byte. -/
  | any
  /-- Any number of bytes. -/
  | anything
  /-- Any number of whole components at the start of a path. -/
  | leadingComponents
  /-- Everything inside a directory. -/
  | inside
  /-- Any number of whole components between two slashes. -/
  | innerComponents
  /-- One byte out of a class. -/
  | oneOf (negated : Bool) (ranges : List (Char × Char))
  /-- One of several patterns. -/
  | alternatives (branches : List (List Token))
  deriving Repr, Inhabited

/-- The ranges of bytes that a range of characters stands for. Only the last byte of its start and
the first byte of its end span a range; the other bytes stand for themselves. -/
def byteRanges (range : Char × Char) : List (UInt8 × UInt8) :=
  let first := encodeChar range.1
  let last := encodeChar range.2
  if range.1 = range.2 then first.map fun b => (b, b)
  else
    -- From `à` to `é`, in bytes C3 A0 and C3 A9, these are C3, A0 to C3, and A9.
    (first.dropLast.map fun b => (b, b)) ++
      (match first.getLast?, last with
        | some a, b :: _ => [(a, b)]
        | _, _ => []) ++
      (last.drop 1).map fun b => (b, b)

def inClass (negated : Bool) (ranges : List (Char × Char)) (byte : UInt8) : Bool :=
  ((ranges.flatMap byteRanges).any fun (a, b) => decide (a ≤ byte) && decide (byte ≤ b)) != negated

/-- For every place of a path, from its start to its end, whether it has been reached. -/
abbrev Marks := List Bool

/-- The places one byte further on, where the byte is one of those wanted. -/
def advance (wanted : UInt8 → Bool) (path : List UInt8) (marks : Marks) : Marks :=
  false :: List.zipWith (fun byte mark => mark && wanted byte) path marks

/-- All places from the first mark on; `reached` says whether there was one before. -/
def spread (reached : Bool) : Marks → Marks
  | [] => []
  | mark :: rest => (reached || mark) :: spread (reached || mark) rest

def union (a b : Marks) : Marks :=
  List.zipWith (· || ·) a b

/-- The places one slash further on. -/
def slash (path : List UInt8) (marks : Marks) : Marks :=
  advance (· = 47) path marks

mutual

def Token.isVoid : Token → Bool
  | .alternatives branches => areVoid branches
  | _ => false

def isVoid : List Token → Bool
  | [] => true
  | token :: rest => token.isVoid && isVoid rest

def areVoid : List (List Token) → Bool
  | [] => true
  | branch :: rest => isVoid branch && areVoid rest

end

mutual

/-- The places where a token can end that starts at a marked place. -/
def Token.run (path : List UInt8) (marks : Marks) : Token → Marks
  | .literal c => (encodeChar c).foldl (fun marks byte => advance (· = byte) path marks) marks
  | .any => advance (fun _ => true) path marks
  | .anything => spread false marks
  -- Nothing, a slash alone, or anything that ends in a slash.
  | .leadingComponents => union (union marks (slash path marks)) (slash path (spread false marks))
  | .inside => spread false (slash path marks)
  -- One slash, or two with anything between them.
  | .innerComponents =>
    union (slash path marks) (slash path (spread false (slash path marks)))
  | .oneOf negated ranges => advance (inClass negated ranges) path marks
  | .alternatives branches =>
    if areVoid branches then marks else runBranches path marks branches

/-- The places where a pattern can end that starts at a marked place. -/
def run (path : List UInt8) (marks : Marks) : List Token → Marks
  | [] => marks
  | token :: rest => run path (token.run path marks) rest

/-- The places where one of the patterns can end; those that stand for nothing do not count. -/
def runBranches (path : List UInt8) (marks : Marks) : List (List Token) → Marks
  | [] => marks.map fun _ => false
  | branch :: rest =>
    if isVoid branch then runBranches path marks rest
    else union (run path marks branch) (runBranches path marks rest)

end

end Glob

/-- A pattern for whole paths. -/
structure Glob where
  tokens : List Glob.Token
  deriving Repr, Inhabited

namespace Glob

/-- Whether the pattern consists of nothing but leading components, and so matches every path. -/
def isUniversal (g : Glob) : Bool :=
  match g.tokens with
  | [.leadingComponents] => true
  | _ => false

/-- Whether the pattern matches a path given as bytes. -/
def matchesBytes (g : Glob) (path : List UInt8) : Bool :=
  g.isUniversal ||
    (run path (true :: List.replicate path.length false) g.tokens).getLast? == some true

def matchesPath (g : Glob) (path : String) : Bool :=
  g.matchesBytes (encode path)

end Glob

end LegacyAudit
