import LegacyAudit.FeatureRecord

/-!
# Rule tables

What the analysis of a syntax tree has to know about a grammar: which kinds of nodes declare
something, which are imports, where names and parameters stand, and which nodes are decisions.

## Main definitions

- `DecisionKind` - the decisions that all languages share
- `ParameterRule`, `RuleTable` - everything about one grammar
- `RuleTable.functionKind?`, `RuleTable.classKind?`, `classify` - lookups by node kind
-/

namespace LegacyAudit

/-- A branching construct. Every grammar maps its own nodes onto these. -/
inductive DecisionKind where
  | conditional
  | whileLoop
  | forLoop
  | caseBranch
  | catchClause
  deriving DecidableEq, Repr, Inhabited

namespace DecisionKind

def name : DecisionKind → String
  | conditional => "if"
  | whileLoop => "while"
  | forLoop => "for"
  | caseBranch => "case"
  | catchClause => "catch"

def byName : List (String × DecisionKind) :=
  [conditional, whileLoop, forLoop, caseBranch, catchClause].map fun k => (k.name, k)

end DecisionKind

/-- Node kinds with what they stand for. The first entry for a kind counts. -/
abbrev KindTable (α : Type) := List (String × α)

def KindTable.lookup? {α : Type} (table : KindTable α) (kind : String) : Option α :=
  (table.find? (·.1 == kind)).map (·.2)

def classify (kind : String) (decisions : KindTable DecisionKind) : Option DecisionKind :=
  decisions.lookup? kind

/-- Where the parameters of a declaration stand: in its child of kind `list`, as the children of
that node whose kind is in `kinds`. -/
structure ParameterRule where
  list : String
  kinds : List String
  deriving Repr

/-- Everything the analysis has to know about one grammar. -/
structure RuleTable where
  functions : KindTable DeclarationKind
  classes : KindTable DeclarationKind
  imports : List String
  /-- The kinds of nodes that name the declaration around them. -/
  identifiers : List String
  parameters : ParameterRule
  decisions : KindTable DecisionKind
  deriving Repr

namespace RuleTable

def functionKind? (rules : RuleTable) (kind : String) : Option DeclarationKind :=
  rules.functions.lookup? kind

def classKind? (rules : RuleTable) (kind : String) : Option DeclarationKind :=
  rules.classes.lookup? kind

def isImport (rules : RuleTable) (kind : String) : Bool :=
  rules.imports.contains kind

def isIdentifier (rules : RuleTable) (kind : String) : Bool :=
  rules.identifiers.contains kind

end RuleTable

end LegacyAudit
