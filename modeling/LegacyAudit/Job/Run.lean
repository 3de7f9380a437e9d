import LegacyAudit.Job.Aggregate

/-!
# Running a job

A job is driven through its phases. Its files are scanned one after the other, then the dependencies
of all files are stored, then their findings and recommendations. The first refusal of the storage
ends the run and is recorded on the job.

## Main definitions

- `Stop`, `JobRun` - why a run stops early, and the parts of a run
- `progressAfter` - the progress of a scan of a list
- `scan` - collects the analyses of the files and reports progress
- `drive` - takes a job through its phases
- `runJob` - drives a job and records a refusal
- `submit` - creates a job and runs it
-/

namespace LegacyAudit

inductive Stop where
  | refused (error : StorageError)
  /-- The storage broke down. -/
  | broken
  deriving DecidableEq, Repr

/-- A part of a run. It talks to a storage and may have to stop. -/
abbrev JobRun (σ α : Type) := ExceptT Stop (StateM σ) α

/-- How a run goes on after an answer: with a value, if the storage has accepted. -/
def Answer.proceed {α : Type} (value : α) : Answer → Except Stop α
  | accepted => .ok value
  | refused e => .error (.refused e)
  | broken => .error .broken

variable {σ : Type}

def issue (storage : Storage σ) (id : JobId) (update : Update) : JobRun σ Unit := fun s =>
  let (answer, s) := storage (.update id update) s
  (answer.proceed (), s)

/-- Enters a phase at the progress that belongs to it. -/
def enter (storage : Storage σ) (id : JobId) (status : JobStatus) : JobRun σ Unit :=
  issue storage id (.status status (status.entryProgress?.getD 0))

/-- Goes on with an aggregator that has stored something. -/
def storing (store : σ → Answer × Aggregator × σ) : JobRun σ Aggregator := fun s =>
  let (answer, a, s) := store s
  (answer.proceed a, s)

/-- The progress when `done` of the `total` files of a list are scanned. A list takes less than 2⁶³
bytes and each of its files more than 24 of them, so that nothing overflows. For a length that no
list has, the scan counts as over. -/
def progressAfter (done total : Nat) : UInt8 :=
  (scanningProgress? (.ofNat done) (.ofNat total)).getD scanningEnd

/-- Scans the files from a place on: collects their analyses, and reports progress whenever it
exceeds what was reported last. A file without an analysis counts as scanned. -/
def scan (storage : Storage σ) (total : Nat) :
    List FileOutcome → Nat → UInt8 → Aggregator → JobRun σ Aggregator
  | [], _, _, a => return a
  | outcome :: rest, index, progress, a => do
    let a := a.collect index outcome
    let next := progressAfter (index + 1) total
    -- Progress that has been reported is not reported again.
    if progress < next then
      issue storage a.id (.status .scanningCode next)
      scan storage total rest (index + 1) next a
    else
      scan storage total rest (index + 1) progress a

/-- Takes a job through its phases, given what becomes of its files. -/
def drive (storage : Storage σ) (id : JobId) (clock : MarkClock) (outcomes : List FileOutcome) :
    JobRun σ AggregateSummary := do
  enter storage id .processing
  enter storage id .scanningCode
  let total := outcomes.length
  let a ← scan storage total outcomes 0 (progressAfter 0 total) { id }
  enter storage id .analyzingDependencies
  let a ← storing (a.persistDependencies storage)
  enter storage id .generatingRecommendations
  let a ← storing (a.persistFindings storage clock)
  enter storage id .completed
  return a.summary

inductive RunEnd where
  /-- It came to its end, whatever the job's status. -/
  | finished
  /-- It was torn down by a storage that broke down. -/
  | aborted
  deriving DecidableEq, Repr

/-- Drives a job. A refusal is recorded on the job with its message, as far as the storage lets
it. -/
def runJob (storage : Storage σ) (id : JobId) (clock : MarkClock) (outcomes : List FileOutcome)
    (s : σ) : RunEnd × σ :=
  match (drive storage id clock outcomes).run s with
  | (.ok _, s) => (.finished, s)
  | (.error .broken, s) => (.aborted, s)
  | (.error (.refused e), s) =>
    -- This may be refused as well, but the run is over in any case.
    match storage (.update id (.failed e.message)) s with
    | (.broken, s) => (.aborted, s)
    | (_, s) => (.finished, s)

/-- The outcome of submitting a job: its creation is refused, or it has run. -/
inductive Submission where
  | refused (error : StorageError)
  /-- The storage broke down before the job existed. -/
  | broken
  | ran (ending : RunEnd)
  deriving DecidableEq, Repr

def submit (storage : Storage σ) (trees : TreeSource) (chain : Chain) (clock : MarkClock)
    (id : JobId) (metadata : ProjectMetadata) (files : List SourceFile) (s : σ) : Submission × σ :=
  match storage (.create id metadata files) s with
  | (.refused e, s) => (.refused e, s)
  | (.broken, s) => (.broken, s)
  | (.accepted, s) =>
    let (ending, s) := runJob storage id clock (files.map (analyzeFile trees chain)) s
    (.ran ending, s)

end LegacyAudit
