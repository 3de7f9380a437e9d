import LegacyAudit.Analyzer.Basic
import LegacyAudit.Config

/-!
# Cloud readiness

Looks for state that ties a service to one machine and for local addresses, and scores the file.

## Main definitions

- `CloudReadiness.Issue` - the two things that stand in the way
- `CloudReadiness.issues` - those that a record shows
- `CloudReadiness.score` - the score of a record
- `CloudReadiness.scan` - what the analyzer says about a record
-/

namespace LegacyAudit.CloudReadiness

open LegacyAudit.Text

/-- What stands in the way of moving a file to the cloud. -/
inductive Issue where
  | statefulSession
  | localAddress
  deriving DecidableEq, Repr

namespace Issue

def title : Issue → String
  | statefulSession => "Stateful session management detected"
  | localAddress => "Hardcoded local configurations found"

def description : Issue → String
  | statefulSession => "Server-side session state ties requests to one instance"
  | localAddress => "Local network addresses will not resolve once deployed"

def remediation : Issue → String
  | statefulSession => "Consider external session storage for scalability"
  | localAddress => "Use environment variables for configuration"

end Issue

/-- The issues that a searchable text shows, each with its keyword. -/
def issues (config : CloudConfig) (text : String) : List (Issue × String) :=
  ((firstSignal? text config.sessionKeywords).map (Issue.statefulSession, ·)).toList ++
    ((firstSignal? text config.localNetworkLiterals).map (Issue.localAddress, ·)).toList

def scoreOf (config : CloudConfig) (found : List (Issue × String)) : UInt8 :=
  if found.isEmpty then config.readyScore else config.reducedScore

def score (config : CloudConfig) (record : FeatureRecord) : UInt8 :=
  scoreOf config (issues config record.signalText)

def finding (config : CloudConfig) (record : FeatureRecord) (issue : Issue) (keyword : String) :
    FindingDraft where
  kind := .cloudReadiness
  severity := .medium
  title := issue.title
  description := issue.description
  lines := locate record keyword
  codeSnippet := none
  suggestedFix := some issue.remediation
  confidence := config.confidence

def recommendation (issue : Issue) : RecommendationDraft where
  kind := .cloudMigration
  priority := .medium
  title := issue.remediation
  description := issue.title ++ ". " ++ issue.remediation
  estimatedEffort := "1-2 weeks"
  benefits := ["Horizontal scalability", "Environment portability"]
  implementationSteps := [issue.remediation]

/-- The recommendation that every file gets, more urgent where there are issues. -/
def adoptPatterns (config : CloudConfig) (found : List (Issue × String)) : RecommendationDraft where
  kind := .cloudMigration
  priority := if found.isEmpty then .low else .medium
  title := "Adopt cloud-native patterns"
  description := "Cloud readiness score: " ++ decimal (scoreOf config found).toNat ++ "/100"
  estimatedEffort := "4-8 weeks"
  benefits := ["Elastic scaling", "Simpler deployment"]
  implementationSteps := config.suggestedPatterns

def report (config : CloudConfig) (record : FeatureRecord) (found : List (Issue × String)) :
    Output where
  findings := found.map fun (issue, keyword) => finding config record issue keyword
  recommendations := found.map (fun (issue, _) => recommendation issue) ++
    [adoptPatterns config found]

def scan (config : CloudConfig) (record : FeatureRecord) : Output :=
  report config record (issues config record.signalText)

def analyzer (config : CloudConfig) : Analyzer where
  name := "cloud_readiness"
  analyze record := .output (scan config record)

end LegacyAudit.CloudReadiness
