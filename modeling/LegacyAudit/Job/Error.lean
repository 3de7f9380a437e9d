import LegacyAudit.Job.Id
import LegacyAudit.Job.Status
import LegacyAudit.Text.Utf8

/-!
# What goes wrong with jobs

## Main definitions

- `StorageError` - why a storage refuses a call
- `JobError` - why a request about a job fails
- `UndecodableFile` - a file whose content is not text
-/

namespace LegacyAudit

open LegacyAudit.Text

inductive StorageError where
  | jobNotFound (id : JobId)
  | invalidTransition (current next : JobStatus)
  | progressRegression (current next : UInt8)
  | rejected (reason : String)
  deriving DecidableEq, Repr

def StorageError.message : StorageError → String
  | jobNotFound id => "Job not found: " ++ id.text
  | invalidTransition current next =>
    "Invalid state transition: " ++ current.name ++ " -> " ++ next.name
  | progressRegression current next =>
    "Progress cannot go from " ++ decimal current.toNat ++ " to " ++ decimal next.toNat
  | rejected reason => "Write rejected: " ++ reason

inductive JobError where
  | storage (error : StorageError)
  | jobNotFound (id : JobId)
  deriving DecidableEq, Repr

def JobError.message : JobError → String
  | storage error => "Storage error: " ++ error.message
  | jobNotFound id => "Job not found: " ++ id.text

/-- A file whose content is not text. -/
structure UndecodableFile where
  filename : String
  error : Utf8Error

def UndecodableFile.message (file : UndecodableFile) : String :=
  file.filename ++ ": content is not valid UTF-8: " ++ file.error.message

end LegacyAudit
