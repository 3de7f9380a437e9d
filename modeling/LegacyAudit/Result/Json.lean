import LegacyAudit.Config.Json
import LegacyAudit.Result.Attached

/-!
# Results as JSON

## Main definitions

- `Finding.toJson`, `Recommendation.toJson`, `Dependency.toJson` - results as objects
- `Finding.decode`, `Recommendation.decode`, `Dependency.decode` - the way back
-/

namespace LegacyAudit

namespace Finding

/-- The JSON form of a finding. What it lacks is left out. -/
def toJson (f : Finding) : Json :=
  .object ([("job_id", f.jobId.toJson), ("type", .string f.kind.name),
    ("severity", .string f.severity.name), ("title", .string f.title),
    ("description", .string f.description), ("location", .string f.location)] ++
    Json.optional "code_snippet" f.codeSnippet ++ Json.optional "suggested_fix" f.suggestedFix ++
    [("confidence", .nat f.confidence.toNat)])

def jobIdField : Field JobId := .required "job_id" JobId.decode

def kindField : Field FindingKind := .required "type" (decodeChoice FindingKind.byName)

def severityField : Field Severity := .required "severity" (decodeChoice Severity.byName)

def titleField : Field String := .required "title" decodeString

def descriptionField : Field String := .required "description" decodeString

def locationField : Field String := .required "location" decodeString

def codeSnippetField : Field (Option String) := .nullable "code_snippet" decodeString

def suggestedFixField : Field (Option String) := .nullable "suggested_fix" decodeString

def confidenceField : Field UInt8 := .required "confidence" decodeByte

def decode : Decoder Finding :=
  decodeRecord "Finding"
    [jobIdField.toCheck, kindField.toCheck, severityField.toCheck, titleField.toCheck,
      descriptionField.toCheck, locationField.toCheck, codeSnippetField.toCheck,
      suggestedFixField.toCheck, confidenceField.toCheck]
    fun members => do
      let jobId ← jobIdField.get members
      let kind ← kindField.get members
      let severity ← severityField.get members
      let title ← titleField.get members
      let description ← descriptionField.get members
      let location ← locationField.get members
      let codeSnippet ← codeSnippetField.get members
      let suggestedFix ← suggestedFixField.get members
      let confidence ← confidenceField.get members
      return { jobId, kind, severity, title, description, location, codeSnippet, suggestedFix,
               confidence }

end Finding

namespace Recommendation

def toJson (r : Recommendation) : Json :=
  .object [("job_id", r.jobId.toJson), ("type", .string r.kind.name),
    ("priority", .string r.priority.name), ("title", .string r.title),
    ("description", .string r.description), ("estimated_effort", .string r.estimatedEffort),
    ("benefits", .strings r.benefits), ("implementation_steps", .strings r.implementationSteps)]

def jobIdField : Field JobId := .required "job_id" JobId.decode

def kindField : Field RecommendationKind :=
  .required "type" (decodeChoice RecommendationKind.byName)

def priorityField : Field Priority := .required "priority" (decodeChoice Priority.byName)

def titleField : Field String := .required "title" decodeString

def descriptionField : Field String := .required "description" decodeString

def estimatedEffortField : Field String := .required "estimated_effort" decodeString

def benefitsField : Field (List String) := .required "benefits" decodeStrings

def implementationStepsField : Field (List String) :=
  .required "implementation_steps" decodeStrings

def decode : Decoder Recommendation :=
  decodeRecord "Recommendation"
    [jobIdField.toCheck, kindField.toCheck, priorityField.toCheck, titleField.toCheck,
      descriptionField.toCheck, estimatedEffortField.toCheck, benefitsField.toCheck,
      implementationStepsField.toCheck]
    fun members => do
      let jobId ← jobIdField.get members
      let kind ← kindField.get members
      let priority ← priorityField.get members
      let title ← titleField.get members
      let description ← descriptionField.get members
      let estimatedEffort ← estimatedEffortField.get members
      let benefits ← benefitsField.get members
      let implementationSteps ← implementationStepsField.get members
      return { jobId, kind, priority, title, description, estimatedEffort, benefits,
               implementationSteps }

end Recommendation

namespace Dependency

def toJson (d : Dependency) : Json :=
  .object [("job_id", d.jobId.toJson), ("name", .string d.name), ("type", .string d.dependencyType),
    ("status", .string d.status.name), ("severity", .string d.severity.name),
    ("migration_complexity", .string d.migrationComplexity.name)]

def jobIdField : Field JobId := .required "job_id" JobId.decode

def nameField : Field String := .required "name" decodeString

def typeField : Field String := .required "type" decodeString

def statusField : Field DependencyStatus :=
  .required "status" (decodeChoice DependencyStatus.byName)

def severityField : Field Severity := .required "severity" (decodeChoice Severity.byName)

def migrationComplexityField : Field MigrationComplexity :=
  .required "migration_complexity" (decodeChoice MigrationComplexity.byName)

def decode : Decoder Dependency :=
  decodeRecord "Dependency"
    [jobIdField.toCheck, nameField.toCheck, typeField.toCheck, statusField.toCheck,
      severityField.toCheck, migrationComplexityField.toCheck]
    fun members => do
      let jobId ← jobIdField.get members
      let name ← nameField.get members
      let dependencyType ← typeField.get members
      let status ← statusField.get members
      let severity ← severityField.get members
      let migrationComplexity ← migrationComplexityField.get members
      return { jobId, name, dependencyType, status, severity, migrationComplexity }

end Dependency

end LegacyAudit
