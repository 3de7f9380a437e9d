import LegacyAudit.Analyzer.Basic
import LegacyAudit.Config

/-!
# The code scanner

Looks for queries, for queries inside loops and for large files.

## Main definitions

- `CodeScanner.Signals` - which of the three the scanner sees in a record
- `CodeScanner.scan` - what it says about them
-/

namespace LegacyAudit.CodeScanner

open LegacyAudit.Text

structure Signals where
  query : Option String
  /-- The keyword for data access that stands beside a loop. -/
  repeatedQuery : Option String
  large : Bool
  deriving DecidableEq, Repr

/-- The signals in a record whose searchable text is `text`. -/
def signals (config : ScannerConfig) (record : FeatureRecord) (text : String) : Signals where
  query := firstSignal? text config.sqlKeywords
  repeatedQuery :=
    if (firstSignal? text config.loopKeywords).isSome then
      firstSignal? text config.persistenceKeywords
    else none
  large := config.largeFileLines < record.linesOfCode

def queryFinding (config : ScannerConfig) (record : FeatureRecord) (keyword : String) :
    FindingDraft where
  kind := .security
  severity := .medium
  title := "Potential SQL injection vulnerability"
  description := "Potential SQL injection vulnerability detected"
  lines := locate record keyword
  codeSnippet := none
  suggestedFix := some "Use parameterized queries instead of building SQL from strings"
  confidence := config.confidence

def repeatedQueryFinding (config : ScannerConfig) (record : FeatureRecord) (keyword : String) :
    FindingDraft where
  kind := .performance
  severity := .medium
  title := "Possible N+1 query problem"
  description := "Possible N+1 query problem: data access appears alongside iteration"
  lines := locate record keyword
  codeSnippet := none
  suggestedFix := none
  confidence := config.confidence

def largeFileFinding (config : ScannerConfig) (record : FeatureRecord) : FindingDraft where
  kind := .maintainability
  severity := .medium
  title := "Large file size may affect maintainability"
  description := "File has " ++ decimal record.linesOfCode.toNat ++ " lines, above the " ++
    decimal config.largeFileLines.toNat ++ " line threshold"
  lines := .range 1 record.linesOfCode
  codeSnippet := none
  suggestedFix := none
  confidence := config.confidence

/-- A recommendation about the quality of the code, all of whose texts are its title. -/
def qualityRecommendation (title : String) : RecommendationDraft where
  kind := .codeQuality
  priority := .high
  title := title
  description := title
  estimatedEffort := "1-2 weeks"
  benefits := ["Improved security", "Better performance"]
  implementationSteps := [title]

def reviewQueries : RecommendationDraft :=
  qualityRecommendation "Review database queries"

def refactorLargeFiles : RecommendationDraft :=
  qualityRecommendation "Consider refactoring large files"

def report (config : ScannerConfig) (record : FeatureRecord) (s : Signals) : Output where
  findings :=
    (s.query.map (queryFinding config record)).toList ++
    (s.repeatedQuery.map (repeatedQueryFinding config record)).toList ++
    (if s.large then [largeFileFinding config record] else [])
  recommendations :=
    (if s.query.isSome || s.repeatedQuery.isSome then [reviewQueries] else []) ++
    (if s.large then [refactorLargeFiles] else [])

def scan (config : ScannerConfig) (record : FeatureRecord) : Output :=
  report config record (signals config record record.signalText)

def analyzer (config : ScannerConfig) : Analyzer where
  name := "code_scanner"
  analyze record := .output (scan config record)

end LegacyAudit.CodeScanner
