import LegacyAudit.Job.Basic
import LegacyAudit.Job.Machine

/-!
# The job store

Jobs by their identifiers, each with its state machine and the history of what it reported. A call
changes one job or is refused.

## Main definitions

- `Call`, `Update` - what can be asked of a store
- `Entry` - a job with its machine and history
- `Store` - the entries; `Store.find?` reads one
- `Store.perform` - carries out a call at a point in time

## Design notes

The steps of a call act on an entry in place, and nothing takes them back when a later step is
refused. That a refused call leaves no trace is a property of the order of the steps.
-/

namespace LegacyAudit

open LegacyAudit.Text

inductive Update where
  | status (status : JobStatus) (progress : UInt8)
  | finding (finding : Finding)
  | recommendation (recommendation : Recommendation)
  | dependency (dependency : Dependency)
  /-- The file submitted at a place, known by its name as well, has been dealt with. -/
  | processed (index : Nat) (filename : String) (time : Timestamp)
  | failed (message : String)
  deriving DecidableEq, Repr

inductive Call where
  | create (id : JobId) (metadata : ProjectMetadata) (files : List SourceFile)
  | update (id : JobId) (change : Update)
  deriving DecidableEq, Repr

def Call.jobId : Call → JobId
  | create id .. | update id _ => id

/-- A job with its machine and history. -/
structure Entry where
  job : Job
  machine : Machine
  /-- Every status and progress that the job has reported, oldest first. -/
  history : List (JobStatus × UInt8)
  deriving DecidableEq, Repr

/-- A change of an entry that may be refused. What was done before a refusal stays done. -/
abbrev Change := ExceptT StorageError (StateM Entry)

namespace Entry

/-- The entry of a job as it is submitted. -/
def new (id : JobId) (now : Timestamp) (metadata : ProjectMetadata) (files : List SourceFile) :
    Entry where
  job := .new id now metadata files
  machine := {}
  history := [(.pending, 0)]

def ensureOpen : Change Unit := do
  let entry ← get
  if entry.job.status.isTerminal then
    throw (.rejected
      ("job " ++ entry.job.id.text ++ " is already " ++ entry.job.status.name))

/-- Takes down in the history where the job stands. -/
def report (entry : Entry) : Entry :=
  { entry with history := entry.history ++ [(entry.job.status, entry.job.progress)] }

/-- Moves the job on. The job takes over what its machine says. -/
def updateStatus (now : Timestamp) (status : JobStatus) (progress : UInt8) : Change Unit := do
  let machine ← (← get).machine.advance status progress
  modify fun entry => { entry with
    machine
    job := { entry.job with status := machine.status, progress := machine.progress } }
  if status = .completed then
    -- Failed jobs have ended as well, but only completed ones get this time.
    modify fun entry => { entry with job := { entry.job with completedAt := some now } }
  modify report

def appendFinding (finding : Finding) : Change Unit := do
  ensureOpen
  modify fun entry =>
    { entry with job := { entry.job with findings := entry.job.findings ++ [finding] } }

def appendRecommendation (recommendation : Recommendation) : Change Unit := do
  ensureOpen
  modify fun entry =>
    { entry with
      job := { entry.job with recommendations := entry.job.recommendations ++ [recommendation] } }

def appendDependency (dependency : Dependency) : Change Unit := do
  ensureOpen
  modify fun entry =>
    { entry with job := { entry.job with dependencies := entry.job.dependencies ++ [dependency] } }

/-- Whether the file at a place has the name and is still to be dealt with. -/
def awaits (files : List JobFile) (index : Nat) (filename : String) : Bool :=
  match files[index]? with
  | some file => file.filename == filename && file.status = .uploaded
  | none => false

def markAt (files : List JobFile) (index : Nat) (time : Timestamp) : List JobFile :=
  files.modify index (·.marked time)

def markProcessed (index : Nat) (filename : String) (time : Timestamp) : Change Unit := do
  ensureOpen
  let entry ← get
  if awaits entry.job.files index filename then
    set { entry with job := { entry.job with files := markAt entry.job.files index time } }
  else
    throw (.rejected ("no pending file " ++ filename ++ " at #" ++ decimal index ++ " in job " ++
      entry.job.id.text))

/-- Ends the job as failed, with a message. Its progress stays as it is. -/
def fail (message : String) : Change Unit := do
  let machine ← (← get).machine.fail
  modify fun entry => { entry with
    machine
    job := { entry.job with status := .failed, errorMessage := some message } }
  modify report

def change (now : Timestamp) : Update → Change Unit
  | .status status progress => updateStatus now status progress
  | .finding finding => appendFinding finding
  | .recommendation recommendation => appendRecommendation recommendation
  | .dependency dependency => appendDependency dependency
  | .processed index filename time => markProcessed index filename time
  | .failed message => fail message

end Entry

/-- Jobs by their identifiers, oldest first. -/
structure Store where
  entries : List (JobId × Entry) := []
  deriving DecidableEq, Repr, Inhabited

namespace Store

def lookup (id : JobId) : List (JobId × Entry) → Option Entry
  | [] => none
  | (other, entry) :: rest => if other = id then some entry else lookup id rest

/-- The entries with the one of a job replaced, or added at the end. -/
def replace (id : JobId) (entry : Entry) : List (JobId × Entry) → List (JobId × Entry)
  | [] => [(id, entry)]
  | (other, old) :: rest =>
    if other = id then (id, entry) :: rest else (other, old) :: replace id entry rest

def find? (store : Store) (id : JobId) : Option Entry :=
  lookup id store.entries

def put (store : Store) (id : JobId) (entry : Entry) : Store :=
  ⟨replace id entry store.entries⟩

def getJob? (store : Store) (id : JobId) : Option Job :=
  (store.find? id).map (·.job)

def history (store : Store) (id : JobId) : List (JobStatus × UInt8) :=
  ((store.find? id).map (·.history)).getD []

/-- Applies a change to the entry of a job. An accepted change dates the job. -/
def changeEntry (store : Store) (now : Timestamp) (id : JobId) (entry : Entry)
    (change : Change Unit) : Except StorageError Unit × Store :=
  match change.run entry with
  | (.ok (), changed) =>
    (.ok (), store.put id { changed with job := { changed.job with updatedAt := now } })
  -- Nothing is rolled back.
  | (.error e, changed) => (.error e, store.put id changed)

def perform (now : Timestamp) (call : Call) (store : Store) : Except StorageError Unit × Store :=
  match call with
  | .create id metadata files => (.ok (), store.put id (.new id now metadata files))
  | .update id change =>
    match store.find? id with
    | none => (.error (.jobNotFound id), store)
    | some entry => store.changeEntry now id entry (Entry.change now change)

end Store

end LegacyAudit
