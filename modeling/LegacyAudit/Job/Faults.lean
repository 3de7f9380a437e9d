import LegacyAudit.Job.Storage

/-!
# Storages that fail on purpose

A storage can be made to refuse chosen calls, or to break down under them, before they reach the
storage behind it.

## Main definitions

- `CallKind` - the operations of a storage, including reads
- `Fault` - which call fails and how
- `Counted` - a state with a record of the calls made on it
- `Faults.storage`, `Faults.read` - calls and reads with faults
-/

namespace LegacyAudit

inductive CallKind where
  | createJob
  | updateJobStatus
  | appendFinding
  | appendRecommendation
  | appendDependency
  | markFileProcessed
  | getJob
  | setJobFailed
  deriving DecidableEq, Repr

namespace CallKind

def name : CallKind → String
  | createJob => "create_job"
  | updateJobStatus => "update_job_status"
  | appendFinding => "append_finding"
  | appendRecommendation => "append_recommendation"
  | appendDependency => "append_dependency"
  | markFileProcessed => "mark_file_processed"
  | getJob => "get_job"
  | setJobFailed => "set_job_failed"

def byName : List (String × CallKind) :=
  [createJob, updateJobStatus, appendFinding, appendRecommendation, appendDependency,
    markFileProcessed, getJob, setJobFailed].map fun k => (k.name, k)

end CallKind

def Update.kind : Update → CallKind
  | status .. => .updateJobStatus
  | finding _ => .appendFinding
  | recommendation _ => .appendRecommendation
  | dependency _ => .appendDependency
  | processed .. => .markFileProcessed
  | failed _ => .setJobFailed

def Call.kind : Call → CallKind
  | create .. => .createJob
  | update _ u => u.kind

/-- Which call fails and how. -/
structure Fault where
  kind : CallKind
  /-- The number of the call among those of its kind on the same job, counted from 1; calls that
  create jobs are counted over all jobs. -/
  nth : Nat
  /-- The place of the job among those created, if the fault concerns one job only. -/
  job : Option Nat
  answer : Answer
  deriving DecidableEq, Repr

/-- A state with a record of the calls made on it. -/
structure Counted (σ : Type) where
  state : σ
  /-- The operations asked for so far; those that create jobs are recorded without a job. -/
  made : List (CallKind × Option JobId) := []
  /-- The jobs created so far, oldest first. -/
  created : List JobId := []

namespace Faults

/-- Whether a fault concerns a job, given the jobs created so far. -/
def concerns (fault : Fault) (created : List JobId) (id : JobId) : Bool :=
  match fault.job with
  | none => true
  | some place => created.idxOf id == place

/-- The answer of the fault that the next call of a kind on a job runs into. -/
def next? {σ : Type} (faults : List Fault) (s : Counted σ) (kind : CallKind) (id : JobId) :
    Option Answer :=
  let key := (kind, if kind = .createJob then none else some id)
  let nth := s.made.count key + 1
  (faults.find? fun f => f.kind = kind && f.nth == nth && concerns f s.created id).map (·.answer)

def record {σ : Type} (s : Counted σ) (kind : CallKind) (id : JobId) : Counted σ :=
  { s with made := (kind, if kind = .createJob then none else some id) :: s.made }

def storage {σ : Type} (faults : List Fault) (behind : Storage σ) : Storage (Counted σ) :=
  fun call s =>
    let recorded := record s call.kind call.jobId
    match next? faults s call.kind call.jobId with
    | some answer => (answer, recorded)
    | none =>
      let (answer, state) := behind call s.state
      let created :=
        if call.kind = .createJob then recorded.created ++ [call.jobId] else recorded.created
      (answer, { recorded with state, created })

def read {σ : Type} (faults : List Fault) (lookup : σ → JobId → Option Job) (id : JobId)
    (s : Counted σ) : Except Answer (Option Job) × Counted σ :=
  (match next? faults s .getJob id with
    | some answer => .error answer
    | none => .ok (lookup s.state id),
   record s .getJob id)

end Faults

end LegacyAudit
