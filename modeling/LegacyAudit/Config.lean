import LegacyAudit.Result.Kinds
import LegacyAudit.Text.Search

/-!
# Configuration

What the analyzers look for and which files are read. Everything has a built-in value.

## Main definitions

- `ScannerConfig`, `DependencyConfig`, `CloudConfig` - one section for each analyzer
- `DependencyRule` - an import that deserves attention, with `DependencyRule.matches`
- `Config` - the whole configuration
-/

namespace LegacyAudit

open LegacyAudit.Text

structure ScannerConfig where
  /-- Files with more lines than this are large. -/
  largeFileLines : UInt64 := 100
  confidence : UInt8 := 80
  sqlKeywords : List String := ["sql"]
  /-- Repeated queries need a loop keyword and a persistence keyword. -/
  loopKeywords : List String := ["for"]
  persistenceKeywords : List String := ["database"]
  deriving DecidableEq, Repr, Inhabited

/-- An import that deserves attention, and what to do about it. -/
structure DependencyRule where
  name : String
  /-- Every one of these must occur in the import. -/
  contains : List String
  status : DependencyStatus
  severity : Severity
  dependencyType : String
  migrationComplexity : MigrationComplexity
  recommendation : String
  estimatedEffort : String
  deriving DecidableEq, Repr, Inhabited

namespace DependencyRule

def defaultEffort : String := "2-4 weeks"

/-- Whether all substrings of the rule occur in the import, whatever the case. -/
def matchesImport (rule : DependencyRule) (text : String) : Bool :=
  rule.contains.all fun needle => Text.contains (lower text) (lower needle)

def springBoot : DependencyRule where
  name := "Spring Boot 1.5"
  contains := ["spring", "1.5"]
  status := .outdated
  severity := .medium
  dependencyType := "framework"
  migrationComplexity := .moderate
  recommendation := "Upgrade Spring Boot to 3.x"
  estimatedEffort := "2-4 weeks"

def log4j : DependencyRule where
  name := "Log4j"
  contains := ["log4j"]
  status := .vulnerable
  severity := .high
  dependencyType := "library"
  migrationComplexity := .moderate
  recommendation := "Replace Log4j with Logback"
  estimatedEffort := "1-2 weeks"

end DependencyRule

structure DependencyConfig where
  rules : List DependencyRule := [.springBoot, .log4j]
  deriving DecidableEq, Repr, Inhabited

structure CloudConfig where
  sessionKeywords : List String := ["session"]
  localNetworkLiterals : List String := ["localhost", "127.0.0.1"]
  readyScore : UInt8 := 75
  reducedScore : UInt8 := 50
  suggestedPatterns : List String := ["12-Factor App", "Microservices", "Containerization"]
  confidence : UInt8 := 80
  deriving DecidableEq, Repr, Inhabited

structure Config where
  version : String := "1"
  scanner : ScannerConfig := {}
  dependencies : DependencyConfig := {}
  cloud : CloudConfig := {}
  /-- Patterns of paths that are not read. -/
  excludedPaths : List String := []
  /-- Larger files are not read. -/
  maxFileBytes : UInt64 := 1048576
  deriving DecidableEq, Repr, Inhabited

end LegacyAudit
