import LegacyAudit.Config
import LegacyAudit.Yaml.Decode

/-!
# Reading configurations from YAML

A file names only what differs from the built-in configuration. Sections and fields may be left out
at will; a rule has to be complete but for its effort.

## Main definitions

- `Config.ofYaml` - the configuration that a text describes
- `Config.ofBytes` - the same for the content of a file
-/

namespace LegacyAudit

open LegacyAudit.Yaml

def readTexts : NodeReader (List String) :=
  readList readText

def ScannerConfig.read : NodeReader ScannerConfig := fun document node => do
  let default : ScannerConfig := {}
  let members ← readMembers
    ["large_file_lines", "confidence", "sql_keywords", "loop_keywords", "persistence_keywords"]
    document node
  let largeFileLines ←
    readMember document members "large_file_lines" readWord64 default.largeFileLines
  let confidence ← readMember document members "confidence" readByte default.confidence
  let sqlKeywords ← readMember document members "sql_keywords" readTexts default.sqlKeywords
  let loopKeywords ← readMember document members "loop_keywords" readTexts default.loopKeywords
  let persistenceKeywords ←
    readMember document members "persistence_keywords" readTexts default.persistenceKeywords
  return { largeFileLines, confidence, sqlKeywords, loopKeywords, persistenceKeywords }

def DependencyRule.read : NodeReader DependencyRule := fun document node => do
  let members ← readMembers
    ["name", "contains", "status", "severity", "type", "migration_complexity", "recommendation",
      "estimated_effort"]
    document node
  let name ← requireMember document members "name" readText
  let contains ← requireMember document members "contains" readTexts
  let status ← requireMember document members "status" (readChoice DependencyStatus.byName)
  let severity ← requireMember document members "severity" (readChoice Severity.byName)
  let dependencyType ← requireMember document members "type" readText
  let migrationComplexity ←
    requireMember document members "migration_complexity" (readChoice MigrationComplexity.byName)
  let recommendation ← requireMember document members "recommendation" readText
  let estimatedEffort ← readMember document members "estimated_effort" readText defaultEffort
  return { name, contains, status, severity, dependencyType, migrationComplexity, recommendation,
           estimatedEffort }

def DependencyConfig.read : NodeReader DependencyConfig := fun document node => do
  let members ← readMembers ["rules"] document node
  let rules ← readMember document members "rules" (readList DependencyRule.read)
    ({} : DependencyConfig).rules
  return { rules }

def CloudConfig.read : NodeReader CloudConfig := fun document node => do
  let default : CloudConfig := {}
  let members ← readMembers
    ["session_keywords", "local_network_literals", "ready_score", "reduced_score",
      "suggested_patterns", "confidence"]
    document node
  let sessionKeywords ←
    readMember document members "session_keywords" readTexts default.sessionKeywords
  let localNetworkLiterals ←
    readMember document members "local_network_literals" readTexts default.localNetworkLiterals
  let readyScore ← readMember document members "ready_score" readByte default.readyScore
  let reducedScore ← readMember document members "reduced_score" readByte default.reducedScore
  let suggestedPatterns ←
    readMember document members "suggested_patterns" readTexts default.suggestedPatterns
  let confidence ← readMember document members "confidence" readByte default.confidence
  return { sessionKeywords, localNetworkLiterals, readyScore, reducedScore, suggestedPatterns,
           confidence }

namespace Config

def read : NodeReader Config := fun document node => do
  let default : Config := {}
  let members ← readMembers
    ["version", "scanner", "dependencies", "cloud", "excluded_paths", "max_file_bytes"]
    document node
  let version ← readMember document members "version" readText default.version
  let scanner ← readMember document members "scanner" ScannerConfig.read default.scanner
  let dependencies ←
    readMember document members "dependencies" DependencyConfig.read default.dependencies
  let cloud ← readMember document members "cloud" CloudConfig.read default.cloud
  let excludedPaths ← readMember document members "excluded_paths" readTexts default.excludedPaths
  let maxFileBytes ← readMember document members "max_file_bytes" readWord64 default.maxFileBytes
  return { version, scanner, dependencies, cloud, excludedPaths, maxFileBytes }

/-- The configuration that a text describes. A text without a document is the built-in one. -/
def ofYaml (text : String) : Except Yaml.Fault Config := do
  (← Document.ofText text).read read {}

end Config

/-- Why the content of a configuration file cannot be used. -/
inductive ConfigReadError where
  /-- The content is no text. -/
  | undecodable
  /-- The text is no description of a configuration. -/
  | unreadable (fault : Yaml.Fault)
  deriving DecidableEq, Repr

def ConfigReadError.message : ConfigReadError → String
  | undecodable => "stream did not contain valid UTF-8"
  | unreadable fault => fault.message

def Config.ofBytes (content : List UInt8) : Except ConfigReadError Config :=
  match Text.decode content with
  | .error _ => .error .undecodable
  | .ok text =>
    match Config.ofYaml text with
    | .ok config => .ok config
    | .error fault => .error (.unreadable fault)

end LegacyAudit
