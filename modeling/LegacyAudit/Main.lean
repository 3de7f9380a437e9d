import LegacyAudit.CommandLine.Snapshot

/-!
# The program

Reads a snapshot from the standard input, runs the command that the arguments ask for, and writes
the answer as a line of JSON. The exit code is that of the command.
-/

open LegacyAudit

/-- Runs a command on the snapshot that the standard input holds. -/
def runOnInput (command : Command) : IO UInt32 := do
  let text ← (← IO.getStdin).readToEnd
  match Snapshot.parse? text with
  | none =>
    (← IO.getStderr).putStrLn "Error: the standard input holds no snapshot"
    return UInt32.ofNat Outcome.failure
  | some snapshot =>
    let workplace := snapshot.workplace
    let outcome := workplace.run command
    (← IO.getStdout).putStrLn (outcome.toJson workplace.tree).compact
    return UInt32.ofNat outcome.exitCode

def main (arguments : List String) : IO UInt32 := do
  match Invocation.read arguments with
  | .error .versionRequested =>
    (← IO.getStdout).putStrLn (programName ++ " " ++ programVersion)
    return UInt32.ofNat UsageError.versionRequested.exitCode
  | .error e =>
    (← if e.exitCode = 0 then IO.getStdout else IO.getStderr).putStrLn e.message
    return UInt32.ofNat e.exitCode
  | .ok invocation => runOnInput invocation.command
