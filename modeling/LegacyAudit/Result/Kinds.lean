import LegacyAudit.Text.Lower

/-!
# The vocabulary of results

The closed lists of words that findings, recommendations and dependencies are classified by. Every
list has a tag for each word, which is both what is shown and what is stored.

## Main definitions

- `Severity`, `FindingKind` - how grave a finding is and what it is about
- `Priority`, `RecommendationKind` - how urgent a recommendation is and what it asks for
- `DependencyStatus`, `MigrationComplexity` - the health of a library and the effort to leave it
- `Severity.parse?` - reads a severity in any case
- `Priority.ofSeverity` - the priority of work on something that grave
-/

namespace LegacyAudit

/-- How grave a finding is, gravest first. -/
inductive Severity where
  | critical
  | high
  | medium
  | low
  deriving DecidableEq, Repr, Inhabited

namespace Severity

def name : Severity → String
  | critical => "critical"
  | high => "high"
  | medium => "medium"
  | low => "low"

def byName : List (String × Severity) :=
  [critical, high, medium, low].map fun s => (s.name, s)

def rank : Severity → Nat
  | critical => 0
  | high => 1
  | medium => 2
  | low => 3

/-- Sorts severities, gravest first. -/
def sort (severities : List Severity) : List Severity :=
  severities.mergeSort fun a b => a.rank ≤ b.rank

/-- Reads a severity, whatever the case of its letters. -/
def parse? (text : String) : Option Severity :=
  (byName.find? (·.1 == Text.lower text)).map (·.2)

def unknownMessage (text : String) : String :=
  "unknown severity: " ++ text

end Severity

inductive FindingKind where
  | security
  | performance
  | maintainability
  | cloudReadiness
  deriving DecidableEq, Repr, Inhabited

namespace FindingKind

def name : FindingKind → String
  | security => "security"
  | performance => "performance"
  | maintainability => "maintainability"
  | cloudReadiness => "cloud_readiness"

def byName : List (String × FindingKind) :=
  [security, performance, maintainability, cloudReadiness].map fun k => (k.name, k)

end FindingKind

/-- How urgent a recommendation is, most urgent first. -/
inductive Priority where
  | high
  | medium
  | low
  deriving DecidableEq, Repr, Inhabited

namespace Priority

def name : Priority → String
  | high => "high"
  | medium => "medium"
  | low => "low"

def byName : List (String × Priority) :=
  [high, medium, low].map fun p => (p.name, p)

def rank : Priority → Nat
  | high => 0
  | medium => 1
  | low => 2

/-- Sorts priorities, most urgent first. -/
def sort (priorities : List Priority) : List Priority :=
  priorities.mergeSort fun a b => a.rank ≤ b.rank

/-- The priority of work on something of the given severity. -/
def ofSeverity : Severity → Priority
  | .critical | .high => high
  | .medium => medium
  | .low => low

end Priority

inductive RecommendationKind where
  | frameworkUpgrade
  | cloudMigration
  | codeQuality
  deriving DecidableEq, Repr, Inhabited

namespace RecommendationKind

def name : RecommendationKind → String
  | frameworkUpgrade => "framework_upgrade"
  | cloudMigration => "cloud_migration"
  | codeQuality => "code_quality"

def byName : List (String × RecommendationKind) :=
  [frameworkUpgrade, cloudMigration, codeQuality].map fun k => (k.name, k)

end RecommendationKind

/-- The health of a library that the code refers to. -/
inductive DependencyStatus where
  | current
  | deprecated
  | vulnerable
  | outdated
  deriving DecidableEq, Repr, Inhabited

namespace DependencyStatus

def name : DependencyStatus → String
  | current => "current"
  | deprecated => "deprecated"
  | vulnerable => "vulnerable"
  | outdated => "outdated"

def byName : List (String × DependencyStatus) :=
  [current, deprecated, vulnerable, outdated].map fun s => (s.name, s)

end DependencyStatus

inductive MigrationComplexity where
  | simple
  | moderate
  | complex
  deriving DecidableEq, Repr, Inhabited

namespace MigrationComplexity

def name : MigrationComplexity → String
  | simple => "simple"
  | moderate => "moderate"
  | complex => "complex"

def byName : List (String × MigrationComplexity) :=
  [simple, moderate, complex].map fun c => (c.name, c)

end MigrationComplexity

end LegacyAudit
