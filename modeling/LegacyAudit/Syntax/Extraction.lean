import LegacyAudit.Syntax.Rules
import LegacyAudit.Syntax.Tree

/-!
# Top-level declarations

Only the children of the root are looked at: a method inside a class or a function inside a
function is not reported.

## Main definitions

- `Extraction` - the functions, classes and imports of a file
- `declarationName`, `parameterTexts` - the parts of a declaration
- `extract` - the declarations and imports among the children of the root
-/

namespace LegacyAudit

/-- The declarations and imports at the top level of a file. -/
structure Extraction where
  functions : List FunctionFacts
  classes : List ClassFacts
  imports : List String
  deriving DecidableEq, Repr

/-- The text of the first child that can name a declaration, or else that of the whole node. -/
def declarationName (rules : RuleTable) (source : List UInt8) (tree : SyntaxTree) : String :=
  match tree.children.find? fun child => rules.isIdentifier child.kind with
  | some identifier => identifier.text source
  | none => tree.text source

/-- The texts of the parameters in the first parameter list of a declaration. -/
def parameterTexts (rules : RuleTable) (source : List UInt8) (tree : SyntaxTree) : List String :=
  match tree.children.find? fun child => child.kind == rules.parameters.list with
  | some list =>
    (list.children.filter fun p => rules.parameters.kinds.contains p.kind).map (·.text source)
  | none => []

inductive TopLevel where
  | function (facts : FunctionFacts)
  | classLike (facts : ClassFacts)
  | import (text : String)
  | other

/-- Tells what a node at the top level is. A kind that is listed several times is a function before
it is a class and a class before it is an import. -/
def topLevel (rules : RuleTable) (source : List UInt8) (tree : SyntaxTree) : TopLevel :=
  match rules.functionKind? tree.kind, rules.classKind? tree.kind with
  | some kind, _ => .function {
      name := declarationName rules source tree
      kind
      parameters := parameterTexts rules source tree
      startLine := tree.span.startRow
      endLine := tree.span.endRow }
  | none, some kind => .classLike {
      name := declarationName rules source tree
      kind
      startLine := tree.span.startRow
      endLine := tree.span.endRow }
  | none, none =>
    if rules.isImport tree.kind then .import (tree.text source) else .other

/-- Sorts the nodes into functions, classes and imports, each in the order of the nodes. -/
def extractFrom (rules : RuleTable) (source : List UInt8) (trees : List SyntaxTree) :
    Extraction where
  functions := trees.filterMap fun t =>
    match topLevel rules source t with
    | .function facts => some facts
    | _ => none
  classes := trees.filterMap fun t =>
    match topLevel rules source t with
    | .classLike facts => some facts
    | _ => none
  imports := trees.filterMap fun t =>
    match topLevel rules source t with
    | .import text => some text
    | _ => none

/-- The declarations and imports among the children of the root. -/
def extract (root : SyntaxTree) (source : List UInt8) (rules : RuleTable) : Extraction :=
  extractFrom rules source root.children

end LegacyAudit
