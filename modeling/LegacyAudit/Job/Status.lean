import LegacyAudit.Text.Decimal

/-!
# The life of a job

A job passes through its working phases in order and ends completed or failed. It may fail from
every phase, and it stays in a phase while its progress advances.

## Main definitions

- `JobStatus` - the phases and the two ends
- `JobStatus.canBecome` - the legal steps
- `JobStatus.entryProgress?` - the progress on entering a phase
- `scanningProgress?` - the progress while files are scanned, unless working it out overflows
-/

namespace LegacyAudit

inductive JobStatus where
  | pending
  | processing
  | scanningCode
  | analyzingDependencies
  | generatingRecommendations
  | completed
  | failed
  deriving DecidableEq, Repr, Inhabited

namespace JobStatus

def name : JobStatus → String
  | pending => "pending"
  | processing => "processing"
  | scanningCode => "scanning_code"
  | analyzingDependencies => "analyzing_dependencies"
  | generatingRecommendations => "generating_recommendations"
  | completed => "completed"
  | failed => "failed"

def byName : List (String × JobStatus) :=
  [pending, processing, scanningCode, analyzingDependencies, generatingRecommendations, completed,
    failed].map fun s => (s.name, s)

/-- Whether nothing can happen to the job any more. -/
def isTerminal : JobStatus → Bool
  | completed | failed => true
  | _ => false

/-- The progress on entering a status. A failed job keeps what it has reached. -/
def entryProgress? : JobStatus → Option UInt8
  | pending => some 0
  | processing => some 10
  | scanningCode => some 25
  | analyzingDependencies => some 50
  | generatingRecommendations => some 75
  | completed => some 100
  | failed => none

/-- The place of a status on the way to completion; failure is off that way. -/
def place? : JobStatus → Option Nat
  | pending => some 0
  | processing => some 1
  | scanningCode => some 2
  | analyzingDependencies => some 3
  | generatingRecommendations => some 4
  | completed => some 5
  | failed => none

/-- Whether a job may go from one status to another: from a status that is not terminal to itself,
to the next one or to failure. -/
def canBecome (current next : JobStatus) : Bool :=
  if current.isTerminal then false
  else
    match current.place?, next.place? with
    | _, none => true
    | some here, some there => there = here || there = here + 1
    | none, some _ => false

end JobStatus

/-- The progress before the first file is scanned. -/
def scanningStart : UInt8 := 25

/-- The progress once all files are scanned. -/
def scanningEnd : UInt8 := 49

/-- The progress when `done` of `total` files are scanned, in words of 64 bits. There is none if the
product, which comes before the quotient, overflows its word. -/
def scanningProgress? (done total : UInt64) : Option UInt8 :=
  if total = 0 then some scanningEnd
  else
    let span := (scanningEnd - scanningStart).toUInt64
    let scanned := min done total
    if span.toBitVec.umulOverflow scanned.toBitVec then none
    else some (scanningStart + (span * scanned / total).toUInt8)

end LegacyAudit
