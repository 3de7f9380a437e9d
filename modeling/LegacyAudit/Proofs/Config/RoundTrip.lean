import LegacyAudit.Config.Yaml
import LegacyAudit.Config.YamlText
import LegacyAudit.Proofs.Yaml.Values

/-!
# Configurations there and back

## Main definitions

- `Config.recovers_read` - a configuration is read from its tree
- `Config.ofBytes_encode_toYaml` - a configuration is read from its text
-/

namespace LegacyAudit

open Yaml Yaml.NodeReader

theorem recovers_texts (values : List String) : Recovers readTexts (.texts values) values :=
  recovers_list recovers_text values

theorem ScannerConfig.recovers_read (c : ScannerConfig) : Recovers read c.content c := by
  intro document
  unfold ScannerConfig.read
  rw [ScannerConfig.content, readMembers_record _ (by simp) document]
  simp only [pure_bind]
  rw [readMember_named "large_file_lines" _ (recovers_word64 c.largeFileLines) rfl,
    readMember_named "confidence" _ (recovers_byte c.confidence) rfl,
    readMember_named "sql_keywords" _ (recovers_texts c.sqlKeywords) rfl,
    readMember_named "loop_keywords" _ (recovers_texts c.loopKeywords) rfl,
    readMember_named "persistence_keywords" _ (recovers_texts c.persistenceKeywords) rfl]
  rfl

theorem DependencyRule.recovers_read (r : DependencyRule) : Recovers read r.content r := by
  intro document
  have hstatus : Recovers (readChoice DependencyStatus.byName) (.text r.status.name) r.status :=
    recovers_choice (by cases r.status <;> rfl)
  have hseverity : Recovers (readChoice Severity.byName) (.text r.severity.name) r.severity :=
    recovers_choice (by cases r.severity <;> rfl)
  have hmigration : Recovers (readChoice MigrationComplexity.byName)
      (.text r.migrationComplexity.name) r.migrationComplexity :=
    recovers_choice (by cases r.migrationComplexity <;> rfl)
  unfold DependencyRule.read
  rw [DependencyRule.content, readMembers_record _ (by simp) document]
  simp only [pure_bind]
  rw [requireMember_named "name" (recovers_text r.name) rfl,
    requireMember_named "contains" (recovers_texts r.contains) rfl,
    requireMember_named "status" hstatus rfl,
    requireMember_named "severity" hseverity rfl,
    requireMember_named "type" (recovers_text r.dependencyType) rfl,
    requireMember_named "migration_complexity" hmigration rfl,
    requireMember_named "recommendation" (recovers_text r.recommendation) rfl,
    readMember_named "estimated_effort" _ (recovers_text r.estimatedEffort) rfl]
  rfl

theorem DependencyConfig.recovers_read (c : DependencyConfig) : Recovers read c.content c := by
  intro document
  have hrules := recovers_list DependencyRule.recovers_read c.rules
  unfold DependencyConfig.read
  rw [DependencyConfig.content, readMembers_record _ (by simp) document]
  simp only [pure_bind]
  rw [readMember_named "rules" _ hrules rfl]
  rfl

theorem CloudConfig.recovers_read (c : CloudConfig) : Recovers read c.content c := by
  intro document
  unfold CloudConfig.read
  rw [CloudConfig.content, readMembers_record _ (by simp) document]
  simp only [pure_bind]
  rw [readMember_named "session_keywords" _ (recovers_texts c.sessionKeywords) rfl,
    readMember_named "local_network_literals" _ (recovers_texts c.localNetworkLiterals) rfl,
    readMember_named "ready_score" _ (recovers_byte c.readyScore) rfl,
    readMember_named "reduced_score" _ (recovers_byte c.reducedScore) rfl,
    readMember_named "suggested_patterns" _ (recovers_texts c.suggestedPatterns) rfl,
    readMember_named "confidence" _ (recovers_byte c.confidence) rfl]
  rfl

namespace Config

def members (c : Config) : List (String × Content) :=
  [("version", .text c.version), ("scanner", c.scanner.content),
    ("dependencies", c.dependencies.content), ("cloud", c.cloud.content),
    ("excluded_paths", .texts c.excludedPaths), ("max_file_bytes", .number c.maxFileBytes.toNat)]

theorem toYaml_eq (c : Config) : c.toYaml = Content.documentText c.members := rfl

theorem recovers_read (c : Config) : Recovers read (.record c.members) c := by
  intro document
  unfold read
  rw [readMembers_record _ (by simp [members]) document]
  simp only [pure_bind]
  rw [readMember_named "version" _ (recovers_text c.version) rfl,
    readMember_named "scanner" _ c.scanner.recovers_read rfl,
    readMember_named "dependencies" _ c.dependencies.recovers_read rfl,
    readMember_named "cloud" _ c.cloud.recovers_read rfl,
    readMember_named "excluded_paths" _ (recovers_texts c.excludedPaths) rfl,
    readMember_named "max_file_bytes" _ (recovers_word64 c.maxFileBytes) rfl]
  rfl

end Config

open Content

theorem regular_texts (values : List String) : (Content.texts values).Regular :=
  regular_list (fun _ => by trivial) values

theorem ScannerConfig.regular_content (c : ScannerConfig) : c.content.Regular := by
  apply regular_record (List.cons_ne_nil _ _)
  · simp only [List.map_cons, List.map_nil]
    decide
  · simp [Regular, regular_texts]

theorem DependencyRule.regular_content (r : DependencyRule) : r.content.Regular := by
  apply regular_record (List.cons_ne_nil _ _)
  · simp only [List.map_cons, List.map_nil]
    decide
  · simp [Regular, regular_texts]

theorem DependencyConfig.regular_content (c : DependencyConfig) : c.content.Regular := by
  apply regular_record (List.cons_ne_nil _ _)
  · simp only [List.map_cons, List.map_nil]
    decide
  · simpa using regular_list DependencyRule.regular_content c.rules

theorem CloudConfig.regular_content (c : CloudConfig) : c.content.Regular := by
  apply regular_record (List.cons_ne_nil _ _)
  · simp only [List.map_cons, List.map_nil]
    decide
  · simp [Regular, regular_texts]

namespace Config

theorem regular_members (c : Config) : (Content.record c.members).Regular := by
  apply regular_record (List.cons_ne_nil _ _)
  · simp only [List.map_cons, List.map_nil]
    decide
  · simp [Regular, regular_texts, ScannerConfig.regular_content,
      DependencyConfig.regular_content, CloudConfig.regular_content]

theorem ofYaml_toYaml (c : Config) : Config.ofYaml c.toYaml = .ok c := by
  obtain ⟨d, hread, hroot⟩ := Document.ofText_documentText c.regular_members
  rw [ofYaml, toYaml_eq, hread]
  change d.read read {} = _
  rw [Document.read, hroot]
  change (read d _).run' _ = _
  rw [c.recovers_read d]
  rfl

/-- The bytes of a configuration that is written are read as that configuration. -/
theorem ofBytes_encode_toYaml (c : Config) :
    Config.ofBytes (Text.encode c.toYaml) = .ok c := by
  rw [ofBytes, Text.decode_encode]
  simp only [ofYaml_toYaml]

end Config

end LegacyAudit
