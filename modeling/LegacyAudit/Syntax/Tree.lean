import LegacyAudit.Text.Utf8

/-!
# Syntax trees

The tree that a grammar finds in a file. Each node has the kind that the grammar gives it and the
stretch of bytes and rows that it covers.

## Main definitions

- `Span`, `SyntaxTree` - nodes and where they stand
- `SyntaxTree.ofPreorder` - the tree of a list of nodes with their depths
- `SyntaxTree.text` - the text that a node covers
- `SyntaxTree.size` - the number of nodes
-/

namespace LegacyAudit

/-- Where a node stands: a range of bytes without its end, and the rows of its first and its last
byte, counted from 0. -/
structure Span where
  startByte : Nat
  endByte : Nat
  startRow : UInt64
  endRow : UInt64
  deriving DecidableEq, Repr, Inhabited

inductive SyntaxTree where
  | node (kind : String) (span : Span) (children : List SyntaxTree)
  deriving Repr, Inhabited

namespace SyntaxTree

def kind : SyntaxTree → String
  | node kind _ _ => kind

def span : SyntaxTree → Span
  | node _ span _ => span

def children : SyntaxTree → List SyntaxTree
  | node _ _ children => children

mutual

def size : SyntaxTree → Nat
  | node _ _ children => sizes children + 1

def sizes : List SyntaxTree → Nat
  | [] => 0
  | t :: rest => size t + sizes rest

end

/-- The text that a node covers, or the empty text if its bytes are not valid UTF-8. -/
def text (source : List UInt8) (tree : SyntaxTree) : String :=
  Text.decodeOrEmpty
    ((source.drop tree.span.startByte).take (tree.span.endByte - tree.span.startByte))

/-- Puts a node in front of trees with their depths. The deeper trees that follow it become its
children. -/
def adopt (entry : Nat × String × Span) (trees : List (Nat × SyntaxTree)) :
    List (Nat × SyntaxTree) :=
  let (depth, kind, span) := entry
  (depth, node kind span ((trees.takeWhile (depth < ·.1)).map (·.2))) ::
    trees.dropWhile (depth < ·.1)

/-- The tree given by its nodes in preorder with their depths. -/
def ofPreorder (entries : List (Nat × String × Span)) : Option SyntaxTree :=
  match entries.foldr adopt [] with
  | [(_, tree)] => some tree
  | _ => none

end SyntaxTree

end LegacyAudit
