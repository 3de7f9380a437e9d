import LegacyAudit.Job.Summary
import LegacyAudit.Json.Writer

/-!
# Reports

A report shows the summary of a job together with what it was run on.

## Main definitions

- `Report` - a summary, a path and the path of a configuration
- `Report.json` - the report for programs
-/

namespace LegacyAudit

def programName : String := "modernizer"

def programVersion : String := "0.1.0"

structure Report where
  /-- What was analyzed, as it was asked for. -/
  path : String
  /-- Where the configuration came from, unless it is the built-in one. -/
  configPath : Option String
  job : JobSummary
  deriving DecidableEq, Repr

namespace Report

/-- The JSON form: the members of the summary stand next to those of the report. -/
def toJson (report : Report) : Json :=
  .object ([("version", .string programVersion), ("path", .string report.path)] ++
    Json.optional "config" report.configPath ++ report.job.members)

def json (report : Report) : String :=
  report.toJson.pretty

end Report

end LegacyAudit
