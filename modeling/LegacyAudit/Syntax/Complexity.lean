import LegacyAudit.Syntax.Cursor
import LegacyAudit.Syntax.Rules

/-!
# Cyclomatic complexity

The complexity of a file is one more than the number of decisions anywhere in its tree.

## Main definitions

- `complexity` - walks over the tree with a cursor and counts
- `SyntaxTree.decisionCount` - the number of decisions by recursion on the tree
-/

namespace LegacyAudit

/-- Adds to `count` the decisions from the focus of the cursor to the end of the tree. -/
def countDecisions (decisions : KindTable DecisionKind) (c : Cursor) (count : UInt32) : UInt32 :=
  let count := if (classify c.focus.kind decisions).isSome then count + 1 else count
  match _h : c.next? with
  | some d => countDecisions decisions d count
  | none => count
termination_by c.pending
decreasing_by
  have := Cursor.pending_next? _h
  omega

/-- One more than the number of decisions in the tree. -/
def complexity (tree : SyntaxTree) (decisions : KindTable DecisionKind) : UInt32 :=
  countDecisions decisions (Cursor.ofTree tree) 1

namespace SyntaxTree

mutual

/-- The number of nodes of a tree whose kind is a decision, the root included. -/
def decisionCount (decisions : KindTable DecisionKind) : SyntaxTree → Nat
  | node kind _ children =>
    (if (classify kind decisions).isSome then 1 else 0) + decisionCounts decisions children

def decisionCounts (decisions : KindTable DecisionKind) : List SyntaxTree → Nat
  | [] => 0
  | t :: rest => decisionCount decisions t + decisionCounts decisions rest

end

end SyntaxTree

end LegacyAudit
