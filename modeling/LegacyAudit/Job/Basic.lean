import LegacyAudit.Job.Error
import LegacyAudit.Result.Attached
import LegacyAudit.Language
import LegacyAudit.Timestamp

/-!
# Jobs

A job is the analysis of one submitted project. It knows its files by name and size; their content
is not kept.

## Main definitions

- `ProjectMetadata`, `AnalysisDepth` - what is said about a project when it is submitted
- `SourceFile` - a submitted file
- `JobFile` - what a job remembers of a file
- `Job` - a job with its results so far
-/

namespace LegacyAudit

inductive AnalysisDepth where
  | quick
  | standard
  | comprehensive
  deriving DecidableEq, Repr

namespace AnalysisDepth

def name : AnalysisDepth → String
  | quick => "quick"
  | standard => "standard"
  | comprehensive => "comprehensive"

def byName : List (String × AnalysisDepth) :=
  [quick, standard, comprehensive].map fun d => (d.name, d)

end AnalysisDepth

/-- What is said about a project when it is submitted. -/
structure ProjectMetadata where
  name : String
  description : Option String := none
  targetPlatform : Option String := none
  analysisDepth : AnalysisDepth := .standard
  deriving DecidableEq, Repr

structure SourceFile where
  filename : String
  content : List UInt8
  deriving DecidableEq, Repr

namespace SourceFile

/-- The language that the name of a file suggests. -/
def language (file : SourceFile) : Language :=
  Language.detect file.filename

def size (file : SourceFile) : UInt64 :=
  UInt64.ofNat file.content.length

def text (file : SourceFile) : Except UndecodableFile String :=
  match Text.decode file.content with
  | .ok text => .ok text
  | .error error => .error ⟨file.filename, error⟩

end SourceFile

inductive FileStatus where
  | uploaded
  | processed
  deriving DecidableEq, Repr

namespace FileStatus

def name : FileStatus → String
  | uploaded => "uploaded"
  | processed => "processed"

def byName : List (String × FileStatus) :=
  [uploaded, processed].map fun s => (s.name, s)

end FileStatus

structure JobFile where
  filename : String
  language : Language
  size : UInt64
  status : FileStatus
  processedAt : Option Timestamp
  deriving DecidableEq, Repr

def JobFile.ofSource (file : SourceFile) : JobFile where
  filename := file.filename
  language := file.language
  size := file.size
  status := .uploaded
  processedAt := none

def JobFile.marked (file : JobFile) (time : Timestamp) : JobFile :=
  { file with status := .processed, processedAt := some time }

structure Job where
  id : JobId
  metadata : ProjectMetadata
  status : JobStatus
  progress : UInt8
  createdAt : Timestamp
  updatedAt : Timestamp
  completedAt : Option Timestamp
  errorMessage : Option String
  files : List JobFile
  findings : List Finding
  recommendations : List Recommendation
  dependencies : List Dependency
  deriving DecidableEq, Repr

namespace Job

def new (id : JobId) (now : Timestamp) (metadata : ProjectMetadata) (files : List SourceFile) :
    Job where
  id
  metadata
  status := .pending
  progress := 0
  createdAt := now
  updatedAt := now
  completedAt := none
  errorMessage := none
  files := files.map .ofSource
  findings := []
  recommendations := []
  dependencies := []

def filesProcessed (job : Job) : Nat :=
  job.files.countP (·.status = .processed)

end Job

end LegacyAudit
