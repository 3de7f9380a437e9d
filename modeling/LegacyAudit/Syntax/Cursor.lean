import LegacyAudit.Syntax.Tree

/-!
# Walking over a syntax tree

A cursor stands on one node of a tree and remembers the way back to the root. It moves to the first
child, to the next sibling or to the parent; together these moves visit every node once.

## Main definitions

- `Cursor` - a position in a tree
- `Cursor.firstChild?`, `Cursor.nextSibling?`, `Cursor.parent?` - the moves
- `Cursor.climb?` - the nearest next sibling of the focus or of a node above it
- `Cursor.next?` - the next node in preorder
- `Cursor.pending` - the number of nodes from the focus to the end of the tree
-/

namespace LegacyAudit

/-- One step on the way from the root: the node above, and the siblings on both sides of the node
below, those on the left in reverse. -/
structure Crumb where
  kind : String
  span : Span
  left : List SyntaxTree
  right : List SyntaxTree

/-- A node of a tree with the way to it, last step first. -/
structure Cursor where
  focus : SyntaxTree
  crumbs : List Crumb

namespace Cursor

def ofTree (tree : SyntaxTree) : Cursor :=
  ⟨tree, []⟩

def firstChild? (c : Cursor) : Option Cursor :=
  match c.focus with
  | .node kind span (child :: rest) => some ⟨child, ⟨kind, span, [], rest⟩ :: c.crumbs⟩
  | .node _ _ [] => none

def nextSibling? (c : Cursor) : Option Cursor :=
  match c.crumbs with
  | ⟨kind, span, left, sibling :: right⟩ :: above =>
    some ⟨sibling, ⟨kind, span, c.focus :: left, right⟩ :: above⟩
  | _ => none

def parent? (c : Cursor) : Option Cursor :=
  match c.crumbs with
  | ⟨kind, span, left, right⟩ :: above =>
    some ⟨.node kind span (left.reverse ++ c.focus :: right), above⟩
  | [] => none

/-- Moves to the next sibling of the focus or of the nearest node above it that has one. The
arguments are the focus and the way to it. -/
def climbFrom (focus : SyntaxTree) : List Crumb → Option Cursor
  | [] => none
  | ⟨kind, span, left, right⟩ :: above =>
    match right with
    | sibling :: right => some ⟨sibling, ⟨kind, span, focus :: left, right⟩ :: above⟩
    | [] => climbFrom (.node kind span (left.reverse ++ [focus])) above

@[inherit_doc climbFrom]
def climb? (c : Cursor) : Option Cursor :=
  climbFrom c.focus c.crumbs

/-- Moves to the next node in preorder. -/
def next? (c : Cursor) : Option Cursor :=
  match c.firstChild? with
  | some child => some child
  | none => c.climb?

/-- The nodes to the right of the way from the root. -/
def pendingRight : List Crumb → Nat
  | [] => 0
  | crumb :: above => SyntaxTree.sizes crumb.right + pendingRight above

/-- The number of nodes that a walk in preorder meets from the focus on. -/
def pending (c : Cursor) : Nat :=
  c.focus.size + pendingRight c.crumbs

theorem pending_climbFrom {focus : SyntaxTree} {crumbs : List Crumb} {d : Cursor}
    (h : climbFrom focus crumbs = some d) : d.pending = pendingRight crumbs := by
  induction crumbs generalizing focus with
  | nil => simp [climbFrom] at h
  | cons crumb above ih =>
    obtain ⟨kind, span, left, right⟩ := crumb
    cases right with
    | nil =>
      rw [climbFrom] at h
      simpa [pendingRight, SyntaxTree.sizes] using ih h
    | cons sibling right =>
      simp only [climbFrom, Option.some.injEq] at h
      subst h
      simp only [pending, pendingRight, SyntaxTree.sizes]
      omega

/-- A step of the walk passes exactly the node it leaves. -/
theorem pending_next? {c d : Cursor} (h : c.next? = some d) : d.pending + 1 = c.pending := by
  obtain ⟨⟨kind, span, children⟩, crumbs⟩ := c
  cases children with
  | nil =>
    simp only [next?, firstChild?, climb?] at h
    simp only [pending, SyntaxTree.size, SyntaxTree.sizes, ← pending_climbFrom h]
    omega
  | cons child rest =>
    simp only [next?, firstChild?, Option.some.injEq] at h
    subst h
    simp only [pending, pendingRight, SyntaxTree.size, SyntaxTree.sizes]
    omega

end Cursor

end LegacyAudit
