import LegacyAudit.FeatureRecord.Json
import LegacyAudit.Job.Basic
import LegacyAudit.Result.Json
import LegacyAudit.Timestamp.Reader

/-!
# Jobs as JSON

## Main definitions

- `ProjectMetadata.toJson`, `ProjectMetadata.decode` - projects
- `JobFile.toJson`, `JobFile.decode` - files of jobs
- `Job.toJson`, `Job.decode` - jobs
-/

namespace LegacyAudit

/-- The JSON form of a value that may be missing. -/
def nullableJson {α : Type} (toJson : α → Json) : Option α → Json
  | some x => toJson x
  | none => .null

namespace ProjectMetadata

def toJson (m : ProjectMetadata) : Json :=
  .object ([("name", .string m.name)] ++ Json.optional "description" m.description ++
    Json.optional "target_platform" m.targetPlatform ++
    [("analysis_depth", .string m.analysisDepth.name)])

def nameField : Field String := .required "name" decodeString

def descriptionField : Field (Option String) := .nullable "description" decodeString

def targetPlatformField : Field (Option String) := .nullable "target_platform" decodeString

def analysisDepthField : Field AnalysisDepth :=
  .default "analysis_depth" (decodeChoice AnalysisDepth.byName) .standard

def decode : Decoder ProjectMetadata :=
  decodeRecord "ProjectMetadata"
    [nameField.toCheck, descriptionField.toCheck, targetPlatformField.toCheck,
      analysisDepthField.toCheck]
    fun members => do
      let name ← nameField.get members
      let description ← descriptionField.get members
      let targetPlatform ← targetPlatformField.get members
      let analysisDepth ← analysisDepthField.get members
      return { name, description, targetPlatform, analysisDepth }

end ProjectMetadata

namespace JobFile

def toJson (f : JobFile) : Json :=
  .object ([("filename", .string f.filename), ("language", .string f.language.name),
    ("size", .nat f.size.toNat), ("status", .string f.status.name)] ++
    Json.optional "processed_at" (f.processedAt.map (·.text)))

def filenameField : Field String := .required "filename" decodeString

def languageField : Field Language := .required "language" Language.decode

def sizeField : Field UInt64 := .required "size" decodeSize

def statusField : Field FileStatus := .required "status" (decodeChoice FileStatus.byName)

def processedAtField : Field (Option Timestamp) := .nullable "processed_at" Timestamp.decode

def decode : Decoder JobFile :=
  decodeRecord "JobFile"
    [filenameField.toCheck, languageField.toCheck, sizeField.toCheck, statusField.toCheck,
      processedAtField.toCheck]
    fun members => do
      let filename ← filenameField.get members
      let language ← languageField.get members
      let size ← sizeField.get members
      let status ← statusField.get members
      let processedAt ← processedAtField.get members
      return { filename, language, size, status, processedAt }

end JobFile

namespace Job

def toJson (j : Job) : Json :=
  .object [("id", j.id.toJson), ("metadata", j.metadata.toJson), ("status", .string j.status.name),
    ("progress", .nat j.progress.toNat), ("created_at", j.createdAt.toJson),
    ("updated_at", j.updatedAt.toJson),
    ("completed_at", nullableJson Timestamp.toJson j.completedAt),
    ("error_message", nullableJson .string j.errorMessage),
    ("files", .array (j.files.map JobFile.toJson)),
    ("findings", .array (j.findings.map Finding.toJson)),
    ("recommendations", .array (j.recommendations.map Recommendation.toJson)),
    ("dependencies", .array (j.dependencies.map Dependency.toJson))]

def idField : Field JobId := .required "id" JobId.decode

def metadataField : Field ProjectMetadata := .required "metadata" ProjectMetadata.decode

def statusField : Field JobStatus := .required "status" (decodeChoice JobStatus.byName)

def progressField : Field UInt8 := .required "progress" decodeByte

def createdAtField : Field Timestamp := .required "created_at" Timestamp.decode

def updatedAtField : Field Timestamp := .required "updated_at" Timestamp.decode

def completedAtField : Field (Option Timestamp) := .nullable "completed_at" Timestamp.decode

def errorMessageField : Field (Option String) := .nullable "error_message" decodeString

def filesField : Field (List JobFile) := .required "files" (decodeList JobFile.decode)

def findingsField : Field (List Finding) := .required "findings" (decodeList Finding.decode)

def recommendationsField : Field (List Recommendation) :=
  .required "recommendations" (decodeList Recommendation.decode)

def dependenciesField : Field (List Dependency) :=
  .required "dependencies" (decodeList Dependency.decode)

def decode : Decoder Job :=
  decodeRecord "AnalysisJob"
    [idField.toCheck, metadataField.toCheck, statusField.toCheck, progressField.toCheck,
      createdAtField.toCheck, updatedAtField.toCheck, completedAtField.toPlacedCheck,
      errorMessageField.toPlacedCheck, filesField.toCheck, findingsField.toCheck,
      recommendationsField.toCheck, dependenciesField.toCheck]
    fun members => do
      let id ← idField.get members
      let metadata ← metadataField.get members
      let status ← statusField.get members
      let progress ← progressField.get members
      let createdAt ← createdAtField.get members
      let updatedAt ← updatedAtField.get members
      let completedAt ← completedAtField.get members
      let errorMessage ← errorMessageField.get members
      let files ← filesField.get members
      let findings ← findingsField.get members
      let recommendations ← recommendationsField.get members
      let dependencies ← dependenciesField.get members
      return { id, metadata, status, progress, createdAt, updatedAt, completedAt, errorMessage,
               files, findings, recommendations, dependencies }

end Job

end LegacyAudit
