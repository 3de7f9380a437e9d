import LegacyAudit.Job.Error

/-!
# The state machine of a job

## Main definitions

- `Machine` - the status and progress of a job
- `Machine.advance` - moves on, or says why that is not legal
- `Machine.fail` - ends the job where it stands
-/

namespace LegacyAudit

structure Machine where
  status : JobStatus := .pending
  progress : UInt8 := 0
  deriving DecidableEq, Repr, Inhabited

namespace Machine

/-- Ends the job as failed, with the progress it has reached. -/
def fail (m : Machine) : Except StorageError Machine :=
  if m.status.isTerminal then .error (.invalidTransition m.status .failed)
  else .ok { m with status := .failed }

/-- Moves to `next` at `progress`. Progress never falls nor exceeds 100, and a job is completed at
100 only. -/
def advance (m : Machine) (next : JobStatus) (progress : UInt8) : Except StorageError Machine :=
  if next = .failed then m.fail
  else if !m.status.canBecome next then .error (.invalidTransition m.status next)
  else if progress < m.progress || 100 < progress then
    .error (.progressRegression m.progress progress)
  else if next = .completed && progress ≠ 100 then
    .error (.rejected
      ("completed job must report progress 100, got " ++ Text.decimal progress.toNat))
  else .ok ⟨next, progress⟩

end Machine

end LegacyAudit
