import LegacyAudit.Result.Kinds
import LegacyAudit.Text.Decimal

/-!
# Drafts

What an analyzer says about one file. A draft belongs to no job yet, and a finding names lines but
no file.

## Main definitions

- `LineSpan` - the lines a finding points at, counted from 1
- `FindingDraft`, `RecommendationDraft`, `DependencyDraft` - the three sorts of results
- `Output` - everything that an analyzer said about a file; outputs are joined with `++`
-/

namespace LegacyAudit

open LegacyAudit.Text

/-- The lines a finding points at, counted from 1. -/
inductive LineSpan where
  | line (number : UInt64)
  | range (first last : UInt64)
  deriving DecidableEq, Repr, Inhabited

namespace LineSpan

/-- The lines of two rows, counted from 0, and all rows between them. -/
def ofRows (startRow endRow : UInt64) : LineSpan :=
  if startRow = endRow then line (startRow + 1) else range (startRow + 1) (endRow + 1)

/-- The text of a span: a number, or two numbers with a hyphen between them. -/
def text : LineSpan → String
  | line number => decimal number.toNat
  | range first last => decimal first.toNat ++ "-" ++ decimal last.toNat

end LineSpan

structure FindingDraft where
  kind : FindingKind
  severity : Severity
  title : String
  description : String
  lines : LineSpan
  codeSnippet : Option String
  suggestedFix : Option String
  confidence : UInt8
  deriving DecidableEq, Repr

structure RecommendationDraft where
  kind : RecommendationKind
  priority : Priority
  title : String
  description : String
  estimatedEffort : String
  benefits : List String
  implementationSteps : List String
  deriving DecidableEq, Repr

structure DependencyDraft where
  name : String
  dependencyType : String
  status : DependencyStatus
  severity : Severity
  migrationComplexity : MigrationComplexity
  deriving DecidableEq, Repr

structure Output where
  findings : List FindingDraft := []
  recommendations : List RecommendationDraft := []
  dependencies : List DependencyDraft := []
  deriving DecidableEq, Repr, Inhabited

namespace Output

def append (a b : Output) : Output where
  findings := a.findings ++ b.findings
  recommendations := a.recommendations ++ b.recommendations
  dependencies := a.dependencies ++ b.dependencies

instance : Append Output := ⟨append⟩

def isEmpty (o : Output) : Bool :=
  o.findings.isEmpty && o.recommendations.isEmpty && o.dependencies.isEmpty

end Output

end LegacyAudit
