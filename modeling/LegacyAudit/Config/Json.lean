import LegacyAudit.Config
import LegacyAudit.Json.Decode

/-!
# Configurations as JSON

Every section and every field may be left out and then has its built-in value; of a dependency rule
only the effort may be left out.

## Main definitions

- `Config.toJson`, `Config.decode` - the two directions
-/

namespace LegacyAudit

def decodeStrings : Decoder (List String) :=
  decodeList decodeString

namespace ScannerConfig

def toJson (c : ScannerConfig) : Json :=
  .object [("large_file_lines", .nat c.largeFileLines.toNat),
    ("confidence", .nat c.confidence.toNat), ("sql_keywords", .strings c.sqlKeywords),
    ("loop_keywords", .strings c.loopKeywords),
    ("persistence_keywords", .strings c.persistenceKeywords)]

def largeFileLinesField : Field UInt64 :=
  .default "large_file_lines" decodeSize ({} : ScannerConfig).largeFileLines

def confidenceField : Field UInt8 :=
  .default "confidence" decodeByte ({} : ScannerConfig).confidence

def sqlKeywordsField : Field (List String) :=
  .default "sql_keywords" decodeStrings ({} : ScannerConfig).sqlKeywords

def loopKeywordsField : Field (List String) :=
  .default "loop_keywords" decodeStrings ({} : ScannerConfig).loopKeywords

def persistenceKeywordsField : Field (List String) :=
  .default "persistence_keywords" decodeStrings ({} : ScannerConfig).persistenceKeywords

def decode : Decoder ScannerConfig :=
  decodeRecord "ScannerConfig"
    [largeFileLinesField.toCheck, confidenceField.toCheck, sqlKeywordsField.toCheck,
      loopKeywordsField.toCheck, persistenceKeywordsField.toCheck]
    fun members => do
      let largeFileLines ← largeFileLinesField.get members
      let confidence ← confidenceField.get members
      let sqlKeywords ← sqlKeywordsField.get members
      let loopKeywords ← loopKeywordsField.get members
      let persistenceKeywords ← persistenceKeywordsField.get members
      return { largeFileLines, confidence, sqlKeywords, loopKeywords, persistenceKeywords }

end ScannerConfig

namespace DependencyRule

def toJson (r : DependencyRule) : Json :=
  .object [("name", .string r.name), ("contains", .strings r.contains),
    ("status", .string r.status.name), ("severity", .string r.severity.name),
    ("type", .string r.dependencyType),
    ("migration_complexity", .string r.migrationComplexity.name),
    ("recommendation", .string r.recommendation), ("estimated_effort", .string r.estimatedEffort)]

def nameField : Field String :=
  .required "name" decodeString

def containsField : Field (List String) :=
  .required "contains" decodeStrings

def statusField : Field DependencyStatus :=
  .required "status" (decodeChoice DependencyStatus.byName)

def severityField : Field Severity :=
  .required "severity" (decodeChoice Severity.byName)

def typeField : Field String :=
  .required "type" decodeString

def migrationComplexityField : Field MigrationComplexity :=
  .required "migration_complexity" (decodeChoice MigrationComplexity.byName)

def recommendationField : Field String :=
  .required "recommendation" decodeString

def estimatedEffortField : Field String :=
  .default "estimated_effort" decodeString defaultEffort

def decode : Decoder DependencyRule :=
  decodeRecord "DependencyRule"
    [nameField.toCheck, containsField.toCheck, statusField.toCheck, severityField.toCheck,
      typeField.toCheck, migrationComplexityField.toCheck, recommendationField.toCheck,
      estimatedEffortField.toCheck]
    fun members => do
      let name ← nameField.get members
      let contains ← containsField.get members
      let status ← statusField.get members
      let severity ← severityField.get members
      let dependencyType ← typeField.get members
      let migrationComplexity ← migrationComplexityField.get members
      let recommendation ← recommendationField.get members
      let estimatedEffort ← estimatedEffortField.get members
      return { name, contains, status, severity, dependencyType, migrationComplexity,
               recommendation, estimatedEffort }

end DependencyRule

namespace DependencyConfig

def toJson (c : DependencyConfig) : Json :=
  .object [("rules", .array (c.rules.map DependencyRule.toJson))]

def rulesField : Field (List DependencyRule) :=
  .default "rules" (decodeList DependencyRule.decode) ({} : DependencyConfig).rules

def decode : Decoder DependencyConfig :=
  decodeRecord "DependencyConfig" [rulesField.toCheck] fun members => do
    let rules ← rulesField.get members
    return { rules }

end DependencyConfig

namespace CloudConfig

def toJson (c : CloudConfig) : Json :=
  .object [("session_keywords", .strings c.sessionKeywords),
    ("local_network_literals", .strings c.localNetworkLiterals),
    ("ready_score", .nat c.readyScore.toNat), ("reduced_score", .nat c.reducedScore.toNat),
    ("suggested_patterns", .strings c.suggestedPatterns), ("confidence", .nat c.confidence.toNat)]

def sessionKeywordsField : Field (List String) :=
  .default "session_keywords" decodeStrings ({} : CloudConfig).sessionKeywords

def localNetworkLiteralsField : Field (List String) :=
  .default "local_network_literals" decodeStrings ({} : CloudConfig).localNetworkLiterals

def readyScoreField : Field UInt8 :=
  .default "ready_score" decodeByte ({} : CloudConfig).readyScore

def reducedScoreField : Field UInt8 :=
  .default "reduced_score" decodeByte ({} : CloudConfig).reducedScore

def suggestedPatternsField : Field (List String) :=
  .default "suggested_patterns" decodeStrings ({} : CloudConfig).suggestedPatterns

def confidenceField : Field UInt8 :=
  .default "confidence" decodeByte ({} : CloudConfig).confidence

def decode : Decoder CloudConfig :=
  decodeRecord "CloudConfig"
    [sessionKeywordsField.toCheck, localNetworkLiteralsField.toCheck, readyScoreField.toCheck,
      reducedScoreField.toCheck, suggestedPatternsField.toCheck, confidenceField.toCheck]
    fun members => do
      let sessionKeywords ← sessionKeywordsField.get members
      let localNetworkLiterals ← localNetworkLiteralsField.get members
      let readyScore ← readyScoreField.get members
      let reducedScore ← reducedScoreField.get members
      let suggestedPatterns ← suggestedPatternsField.get members
      let confidence ← confidenceField.get members
      return { sessionKeywords, localNetworkLiterals, readyScore, reducedScore, suggestedPatterns,
               confidence }

end CloudConfig

namespace Config

def toJson (c : Config) : Json :=
  .object [("version", .string c.version), ("scanner", c.scanner.toJson),
    ("dependencies", c.dependencies.toJson), ("cloud", c.cloud.toJson),
    ("excluded_paths", .strings c.excludedPaths), ("max_file_bytes", .nat c.maxFileBytes.toNat)]

def versionField : Field String :=
  .default "version" decodeString ({} : Config).version

def scannerField : Field ScannerConfig :=
  .default "scanner" ScannerConfig.decode {}

def dependenciesField : Field DependencyConfig :=
  .default "dependencies" DependencyConfig.decode {}

def cloudField : Field CloudConfig :=
  .default "cloud" CloudConfig.decode {}

def excludedPathsField : Field (List String) :=
  .default "excluded_paths" decodeStrings ({} : Config).excludedPaths

def maxFileBytesField : Field UInt64 :=
  .default "max_file_bytes" decodeWord64 ({} : Config).maxFileBytes

def decode : Decoder Config :=
  decodeRecord "Config"
    [versionField.toCheck, scannerField.toCheck, dependenciesField.toCheck, cloudField.toCheck,
      excludedPathsField.toCheck, maxFileBytesField.toCheck]
    fun members => do
      let version ← versionField.get members
      let scanner ← scannerField.get members
      let dependencies ← dependenciesField.get members
      let cloud ← cloudField.get members
      let excludedPaths ← excludedPathsField.get members
      let maxFileBytes ← maxFileBytesField.get members
      return { version, scanner, dependencies, cloud, excludedPaths, maxFileBytes }

end Config

end LegacyAudit
