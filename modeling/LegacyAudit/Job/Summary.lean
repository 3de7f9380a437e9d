import LegacyAudit.Job.Json

/-!
# Job summaries

What a reader sees of a job: its results and counts, without the list of files.

## Main definitions

- `JobSummary` - the view, with `JobSummary.members` as JSON
- `Job.summary` - the view of a job
-/

namespace LegacyAudit

/-- What a reader sees of a job. -/
structure JobSummary where
  id : JobId
  metadata : ProjectMetadata
  status : JobStatus
  progress : UInt8
  errorMessage : Option String
  createdAt : Timestamp
  updatedAt : Timestamp
  completedAt : Option Timestamp
  filesSubmitted : Nat
  filesAnalyzed : Nat
  findings : List Finding
  recommendations : List Recommendation
  dependencies : List Dependency
  deriving DecidableEq, Repr

def Job.summary (job : Job) : JobSummary where
  id := job.id
  metadata := job.metadata
  status := job.status
  progress := job.progress
  errorMessage := job.errorMessage
  createdAt := job.createdAt
  updatedAt := job.updatedAt
  completedAt := job.completedAt
  filesSubmitted := job.files.length
  filesAnalyzed := job.filesProcessed
  findings := job.findings
  recommendations := job.recommendations
  dependencies := job.dependencies

namespace JobSummary

/-- The members of the JSON form of a summary. What it lacks is left out. -/
def members (s : JobSummary) : List (String × Json) :=
  [("id", s.id.toJson), ("metadata", s.metadata.toJson), ("status", .string s.status.name),
    ("progress", .nat s.progress.toNat)] ++
    Json.optional "error_message" s.errorMessage ++
    [("created_at", s.createdAt.toJson), ("updated_at", s.updatedAt.toJson)] ++
    Json.optional "completed_at" (s.completedAt.map (·.text)) ++
    [("files_submitted", .nat s.filesSubmitted), ("files_analyzed", .nat s.filesAnalyzed),
      ("findings", .array (s.findings.map Finding.toJson)),
      ("recommendations", .array (s.recommendations.map Recommendation.toJson)),
      ("dependencies", .array (s.dependencies.map Dependency.toJson))]

def toJson (s : JobSummary) : Json :=
  .object s.members

end JobSummary

end LegacyAudit
