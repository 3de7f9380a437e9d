import LegacyAudit.Job.FileAnalysis
import LegacyAudit.Job.Storage

/-!
# From file analyses to stored results

The analyses of a job's files are collected with the places of the files. First the dependencies of
all files are stored, later the findings and recommendations file by file; a file is marked as
processed once both of its own lists are stored.

## Main definitions

- `AggregateSummary` - how much has been collected and stored
- `Aggregator` - the collected analyses with their summary
- `dependencyUpdates`, `findingUpdates` - the updates that store the results
- `MarkClock` - when the files are marked
-/

namespace LegacyAudit

structure AggregateSummary where
  findings : Nat := 0
  recommendations : Nat := 0
  dependencies : Nat := 0
  filesAnalyzed : Nat := 0
  deriving DecidableEq, Repr, Inhabited

def AggregateSummary.count (summary : AggregateSummary) : Update → AggregateSummary
  | .finding _ => { summary with findings := summary.findings + 1 }
  | .recommendation _ => { summary with recommendations := summary.recommendations + 1 }
  | .dependency _ => { summary with dependencies := summary.dependencies + 1 }
  | _ => summary

/-- The time at which the file at a place is marked. -/
def MarkClock : Type :=
  Nat → Timestamp

/-- A clock that stands still. -/
instance : Coe Timestamp MarkClock := ⟨fun now _ => now⟩

def dependencyUpdates (id : JobId) (files : List (Nat × FileAnalysis)) : List Update :=
  files.flatMap fun (_, file) =>
    file.output.dependencies.map fun draft => .dependency (draft.attach id)

/-- The updates that store the findings and recommendations of a file and then mark it. -/
def fileUpdates (id : JobId) (clock : MarkClock) (index : Nat) (file : FileAnalysis) :
    List Update :=
  (file.output.findings.map fun draft => .finding (draft.attach id file.filename)) ++
    (file.output.recommendations.map fun draft => .recommendation (draft.attach id)) ++
    [.processed index file.filename (clock index)]

/-- The updates that store the findings and recommendations of the files. -/
def findingUpdates (id : JobId) (clock : MarkClock) (files : List (Nat × FileAnalysis)) :
    List Update :=
  files.flatMap fun (index, file) => fileUpdates id clock index file

structure Aggregator where
  id : JobId
  files : List (Nat × FileAnalysis) := []
  summary : AggregateSummary := {}

namespace Aggregator

def add (a : Aggregator) (index : Nat) (analysis : FileAnalysis) : Aggregator :=
  { a with
    files := a.files ++ [(index, analysis)]
    summary := { a.summary with filesAnalyzed := a.summary.filesAnalyzed + 1 } }

def collect (a : Aggregator) (index : Nat) (outcome : FileOutcome) : Aggregator :=
  match outcome with
  | .analyzed analysis => a.add index analysis
  | .undecodable _ | .crashed => a

/-- Asks for updates and counts the accepted ones. -/
def persist {σ : Type} (a : Aggregator) (storage : Storage σ) (updates : List Update) (s : σ) :
    Answer × Aggregator × σ :=
  let (execution, s) := execute storage a.id updates s
  (execution.answer, { a with summary := execution.accepted.foldl .count a.summary }, s)

def persistDependencies {σ : Type} (a : Aggregator) (storage : Storage σ) (s : σ) :
    Answer × Aggregator × σ :=
  a.persist storage (dependencyUpdates a.id a.files) s

def persistFindings {σ : Type} (a : Aggregator) (storage : Storage σ) (clock : MarkClock) (s : σ) :
    Answer × Aggregator × σ :=
  a.persist storage (findingUpdates a.id clock a.files) s

end Aggregator

end LegacyAudit
