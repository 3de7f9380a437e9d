import LegacyAudit.Config
import LegacyAudit.Yaml.Writer

/-!
# Writing configurations as YAML

## Main definitions

- `Config.toYaml` - the text of a configuration, with every section and every field
-/

namespace LegacyAudit

open LegacyAudit.Yaml

def ScannerConfig.content (c : ScannerConfig) : Content :=
  .record [("large_file_lines", .number c.largeFileLines.toNat),
    ("confidence", .number c.confidence.toNat), ("sql_keywords", .texts c.sqlKeywords),
    ("loop_keywords", .texts c.loopKeywords),
    ("persistence_keywords", .texts c.persistenceKeywords)]

def DependencyRule.content (r : DependencyRule) : Content :=
  .record [("name", .text r.name), ("contains", .texts r.contains), ("status", .text r.status.name),
    ("severity", .text r.severity.name), ("type", .text r.dependencyType),
    ("migration_complexity", .text r.migrationComplexity.name),
    ("recommendation", .text r.recommendation), ("estimated_effort", .text r.estimatedEffort)]

def DependencyConfig.content (c : DependencyConfig) : Content :=
  .record [("rules", .list (c.rules.map DependencyRule.content))]

def CloudConfig.content (c : CloudConfig) : Content :=
  .record [("session_keywords", .texts c.sessionKeywords),
    ("local_network_literals", .texts c.localNetworkLiterals),
    ("ready_score", .number c.readyScore.toNat), ("reduced_score", .number c.reducedScore.toNat),
    ("suggested_patterns", .texts c.suggestedPatterns),
    ("confidence", .number c.confidence.toNat)]

def Config.toYaml (c : Config) : String :=
  Content.documentText [("version", .text c.version), ("scanner", c.scanner.content),
    ("dependencies", c.dependencies.content), ("cloud", c.cloud.content),
    ("excluded_paths", .texts c.excludedPaths), ("max_file_bytes", .number c.maxFileBytes.toNat)]

end LegacyAudit
