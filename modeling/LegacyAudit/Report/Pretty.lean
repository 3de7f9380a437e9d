import LegacyAudit.Report.Basic
import LegacyAudit.Text.Ink

/-!
# Reports for people

A heading, a line about the job, and then a section each for findings, dependencies and
recommendations. A section without entries is left out.

## Main definitions

- `Report.pretty` - the report for people
-/

namespace LegacyAudit

open LegacyAudit.Text

def faint : Ink := { weight := some .dimmed }

def strong : Ink := { weight := some .bold }

def inked (colour : Colour) : Ink := { colour := some colour }

def line (parts : List String) : String :=
  String.join parts ++ "\n"

def Severity.tagText (colours : Bool) (severity : Severity) : String :=
  let tag := match severity with
    | .critical => ({ weight := some .bold, colour := some .red } : Ink).paint colours "CRIT"
    | .high => (inked .red).paint colours "HIGH"
    | .medium => (inked .yellow).paint colours "MED "
    | .low => (inked .blue).paint colours "LOW "
  "    " ++ tag ++ " "

def Priority.tagText (colours : Bool) (priority : Priority) : String :=
  let tag := match priority with
    | .high => (inked .red).paint colours "HIGH"
    | .medium => (inked .yellow).paint colours "MED "
    | .low => (inked .blue).paint colours "LOW "
  "    " ++ tag ++ " "

def JobStatus.mark (colours : Bool) (status : JobStatus) : String :=
  match status with
  | .completed => (inked .green).paint colours "✓ COMPLETED"
  | .failed => (inked .red).paint colours "✗ FAILED"
  | other => (inked .yellow).paint colours (String.ofList (other.name.toList.map Char.toUpper))

def sectionHeading (colours : Bool) (title : String) (count : Nat) : String :=
  line ["  ", strong.paint colours title, " (", decimal count, "):"]

/-- A finding: what and where, what is wrong, and how to mend it. -/
def Finding.pretty (colours : Bool) (f : Finding) : String :=
  let fix := match f.suggestedFix with
    | some fix => line ["            ", faint.paint colours ("fix: " ++ fix)]
    | none => ""
  line [f.severity.tagText colours, faint.paintPadded colours 18 f.kind.name,
      (inked .blue).paint colours f.location] ++
    line ["            ", f.title] ++ fix ++ line []

def Dependency.pretty (colours : Bool) (d : Dependency) : String :=
  let about := "(" ++ d.dependencyType ++ ", " ++ d.migrationComplexity.name ++ " migration)"
  line [d.severity.tagText colours, String.ofList (padRight 28 d.name.toList), " ",
    (inked .yellow).paint colours d.status.name, " ", faint.paint colours about]

def Recommendation.pretty (colours : Bool) (r : Recommendation) : String :=
  let about := "[" ++ r.kind.name ++ ", " ++ r.estimatedEffort ++ "]"
  line [r.priority.tagText colours, r.title, " ", faint.paint colours about]

def JobSummary.statusLine (colours : Bool) (job : JobSummary) : String :=
  let error := match job.errorMessage with
    | some message => line ["  ", (inked .red).paint colours "Error:", " ", message]
    | none => ""
  line ["  ", job.status.mark colours, "  Progress: ", decimal job.progress.toNat, "%  Files: ",
    strong.paint colours (decimal job.filesAnalyzed), "/", decimal job.filesSubmitted] ++ error

namespace Report

def heading (colours : Bool) (report : Report) : String :=
  let ink : Ink := { weight := some .bold, colour := some .cyan }
  let fact (label value : String) : String := line ["  ", faint.paint colours label, value]
  let target := match report.job.metadata.targetPlatform with
    | some platform => fact "Target:   " platform
    | none => ""
  line [] ++ line ["  ", ink.paint colours programName, " v", programVersion] ++ line [] ++
    fact "Project:  " report.job.metadata.name ++ fact "Scanning: " report.path ++
    fact "Config:   " (report.configPath.getD "(defaults)") ++ target ++ line []

/-- A section, which is left out without entries. `lead` stands between the heading and the
entries. -/
def sectionText {α : Type} (colours : Bool) (title lead : String) (entries : List α)
    (pretty : Bool → α → String) : String :=
  if entries.isEmpty then ""
  else
    sectionHeading colours title entries.length ++ lead ++
      String.join (entries.map (pretty colours)) ++ line []

def pretty (colours : Bool) (report : Report) : String :=
  report.heading colours ++ report.job.statusLine colours ++ line [] ++
    sectionText colours "Findings" (line []) report.job.findings Finding.pretty ++
    sectionText colours "Dependencies" "" report.job.dependencies Dependency.pretty ++
    sectionText colours "Recommendations" "" report.job.recommendations Recommendation.pretty

end Report

end LegacyAudit
