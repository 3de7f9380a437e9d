import LegacyAudit.Job.Id
import LegacyAudit.Result.Draft

/-!
# Results that belong to a job

A draft becomes a result when it is attached to a job. The file of a finding is then part of its
location.

## Main definitions

- `Finding`, `Recommendation`, `Dependency` - the results of a job
- `FindingDraft.attach`, `RecommendationDraft.attach`, `DependencyDraft.attach` - from drafts
-/

namespace LegacyAudit

structure Finding where
  jobId : JobId
  kind : FindingKind
  severity : Severity
  title : String
  description : String
  /-- The file, a colon and the lines. -/
  location : String
  codeSnippet : Option String
  suggestedFix : Option String
  confidence : UInt8
  deriving DecidableEq, Repr

structure Recommendation where
  jobId : JobId
  kind : RecommendationKind
  priority : Priority
  title : String
  description : String
  estimatedEffort : String
  benefits : List String
  implementationSteps : List String
  deriving DecidableEq, Repr

structure Dependency where
  jobId : JobId
  name : String
  dependencyType : String
  status : DependencyStatus
  severity : Severity
  migrationComplexity : MigrationComplexity
  deriving DecidableEq, Repr

def locationText (filename : String) (lines : LineSpan) : String :=
  filename ++ ":" ++ lines.text

/-- Attaches a finding to a job and a file. Confidence ends at 100. -/
def FindingDraft.attach (d : FindingDraft) (jobId : JobId) (filename : String) : Finding where
  jobId
  kind := d.kind
  severity := d.severity
  title := d.title
  description := d.description
  location := locationText filename d.lines
  codeSnippet := d.codeSnippet
  suggestedFix := d.suggestedFix
  confidence := min d.confidence 100

def RecommendationDraft.attach (d : RecommendationDraft) (jobId : JobId) : Recommendation where
  jobId
  kind := d.kind
  priority := d.priority
  title := d.title
  description := d.description
  estimatedEffort := d.estimatedEffort
  benefits := d.benefits
  implementationSteps := d.implementationSteps

def DependencyDraft.attach (d : DependencyDraft) (jobId : JobId) : Dependency where
  jobId
  name := d.name
  dependencyType := d.dependencyType
  status := d.status
  severity := d.severity
  migrationComplexity := d.migrationComplexity

end LegacyAudit
