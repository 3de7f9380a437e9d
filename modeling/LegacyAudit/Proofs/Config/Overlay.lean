import LegacyAudit.Config.Json
import LegacyAudit.Proofs.Json.Remainders

/-!
# Configurations with gaps

A configuration that lacks some of its fields is read with the built-in values of those fields, each
section with its own. Of a rule only the effort has such a value.

## Main definitions

- `Omission` - the keys that are gone, with `Omission.Leaves` and `Omission.missing`
- `Config.overlay` - a configuration with built-in values where fields are gone
- `Config.decode_overlays` - what is read from what is left
-/

namespace LegacyAudit

open Json (Leaves)

namespace DependencyRule

def required : List String :=
  ["name", "contains", "status", "severity", "type", "migration_complexity", "recommendation"]

/-- The first key that a rule needs and that is gone. -/
def missing (gone : List String) : Option String :=
  required.find? (· ∈ gone)

/-- The rule with the built-in effort if the effort is gone. -/
def overlay (gone : List String) (r : DependencyRule) : DependencyRule :=
  { r with
    estimatedEffort := if "estimated_effort" ∈ gone then defaultEffort else r.estimatedEffort }

theorem undoes_status : Undoes (decodeChoice DependencyStatus.byName) fun s => .string s.name :=
  undoes_choice fun s => by cases s <;> rfl

theorem undoes_severity : Undoes (decodeChoice Severity.byName) fun s => .string s.name :=
  undoes_choice fun s => by cases s <;> rfl

theorem undoes_migrationComplexity :
    Undoes (decodeChoice MigrationComplexity.byName) fun c => .string c.name :=
  undoes_choice fun c => by cases c <;> rfl

variable {gone : List String} {r : DependencyRule} {rest : Json}

theorem decode_leaves (h : Leaves gone (fun _ => Eq) r.toJson rest) :
    decode rest = unlessMissing (missing gone) (r.overlay gone) := by
  obtain ⟨left, rfl⟩ := h.exists_object
  have hname : nameField.Left gone _ r.name :=
    h.field (by simp [nameField, Field.required]) (exact_string.undoes.reads _)
  have hcontains : containsField.Left gone _ r.contains :=
    h.field (by simp [containsField, Field.required]) (exact_strings.undoes.reads _)
  have hstatus : statusField.Left gone _ r.status :=
    h.field (by simp [statusField, Field.required]) (undoes_status.reads _)
  have hseverity : severityField.Left gone _ r.severity :=
    h.field (by simp [severityField, Field.required]) (undoes_severity.reads _)
  have htype : typeField.Left gone _ r.dependencyType :=
    h.field (by simp [typeField, Field.required]) (exact_string.undoes.reads _)
  have hmigration : migrationComplexityField.Left gone _ r.migrationComplexity :=
    h.field (by simp [migrationComplexityField, Field.required])
      (undoes_migrationComplexity.reads _)
  have hrecommendation : recommendationField.Left gone _ r.recommendation :=
    h.field (by simp [recommendationField, Field.required]) (exact_string.undoes.reads _)
  have heffort : estimatedEffortField.Left gone _ r.estimatedEffort :=
    h.field (by simp [estimatedEffortField, Field.default]) (exact_string.undoes.reads _)
  rw [decode, decodeRecord_object]
  · apply hname.bind_required
    apply hcontains.bind_required
    apply hstatus.bind_required
    apply hseverity.bind_required
    apply htype.bind_required
    apply hmigration.bind_required
    apply hrecommendation.bind_required
    apply heffort.bind_default
    rfl
  · simp only [List.forall_mem_cons, hname.passes, hcontains.passes, hstatus.passes,
      hseverity.passes, htype.passes, hmigration.passes, hrecommendation.passes, heffort.passes]
    simp

end DependencyRule

/-- The scanner section with built-in values for the fields that are gone. -/
def ScannerConfig.overlay (gone : List String) (c : ScannerConfig) : ScannerConfig where
  largeFileLines :=
    if "large_file_lines" ∈ gone then ({} : ScannerConfig).largeFileLines else c.largeFileLines
  confidence := if "confidence" ∈ gone then ({} : ScannerConfig).confidence else c.confidence
  sqlKeywords := if "sql_keywords" ∈ gone then ({} : ScannerConfig).sqlKeywords else c.sqlKeywords
  loopKeywords :=
    if "loop_keywords" ∈ gone then ({} : ScannerConfig).loopKeywords else c.loopKeywords
  persistenceKeywords :=
    if "persistence_keywords" ∈ gone then ({} : ScannerConfig).persistenceKeywords
    else c.persistenceKeywords

theorem ScannerConfig.decode_leaves {gone : List String} {c : ScannerConfig} {rest : Json}
    (h : Leaves gone (fun _ => Eq) c.toJson rest) : decode rest = .ok (c.overlay gone) := by
  obtain ⟨left, rfl⟩ := h.exists_object
  have hlines : largeFileLinesField.Left gone _ c.largeFileLines :=
    h.field (by simp [largeFileLinesField, Field.default]) (exact_size.undoes.reads _)
  have hconfidence : confidenceField.Left gone _ c.confidence :=
    h.field (by simp [confidenceField, Field.default]) (exact_byte.undoes.reads _)
  have hsql : sqlKeywordsField.Left gone _ c.sqlKeywords :=
    h.field (by simp [sqlKeywordsField, Field.default]) (exact_strings.undoes.reads _)
  have hloop : loopKeywordsField.Left gone _ c.loopKeywords :=
    h.field (by simp [loopKeywordsField, Field.default]) (exact_strings.undoes.reads _)
  have hpersistence : persistenceKeywordsField.Left gone _ c.persistenceKeywords :=
    h.field (by simp [persistenceKeywordsField, Field.default]) (exact_strings.undoes.reads _)
  rw [decode, decodeRecord_object]
  · apply hlines.bind_default
    apply hconfidence.bind_default
    apply hsql.bind_default
    apply hloop.bind_default
    apply hpersistence.bind_default
    rfl
  · simp only [List.forall_mem_cons, hlines.passes, hconfidence.passes, hsql.passes, hloop.passes,
      hpersistence.passes]
    simp

/-- The cloud section with built-in values for the fields that are gone. -/
def CloudConfig.overlay (gone : List String) (c : CloudConfig) : CloudConfig where
  sessionKeywords :=
    if "session_keywords" ∈ gone then ({} : CloudConfig).sessionKeywords else c.sessionKeywords
  localNetworkLiterals :=
    if "local_network_literals" ∈ gone then ({} : CloudConfig).localNetworkLiterals
    else c.localNetworkLiterals
  readyScore := if "ready_score" ∈ gone then ({} : CloudConfig).readyScore else c.readyScore
  reducedScore := if "reduced_score" ∈ gone then ({} : CloudConfig).reducedScore else c.reducedScore
  suggestedPatterns :=
    if "suggested_patterns" ∈ gone then ({} : CloudConfig).suggestedPatterns
    else c.suggestedPatterns
  confidence := if "confidence" ∈ gone then ({} : CloudConfig).confidence else c.confidence

theorem CloudConfig.decode_leaves {gone : List String} {c : CloudConfig} {rest : Json}
    (h : Leaves gone (fun _ => Eq) c.toJson rest) : decode rest = .ok (c.overlay gone) := by
  obtain ⟨left, rfl⟩ := h.exists_object
  have hsession : sessionKeywordsField.Left gone _ c.sessionKeywords :=
    h.field (by simp [sessionKeywordsField, Field.default]) (exact_strings.undoes.reads _)
  have hlocal : localNetworkLiteralsField.Left gone _ c.localNetworkLiterals :=
    h.field (by simp [localNetworkLiteralsField, Field.default]) (exact_strings.undoes.reads _)
  have hready : readyScoreField.Left gone _ c.readyScore :=
    h.field (by simp [readyScoreField, Field.default]) (exact_byte.undoes.reads _)
  have hreduced : reducedScoreField.Left gone _ c.reducedScore :=
    h.field (by simp [reducedScoreField, Field.default]) (exact_byte.undoes.reads _)
  have hpatterns : suggestedPatternsField.Left gone _ c.suggestedPatterns :=
    h.field (by simp [suggestedPatternsField, Field.default]) (exact_strings.undoes.reads _)
  have hconfidence : confidenceField.Left gone _ c.confidence :=
    h.field (by simp [confidenceField, Field.default]) (exact_byte.undoes.reads _)
  rw [decode, decodeRecord_object]
  · apply hsession.bind_default
    apply hlocal.bind_default
    apply hready.bind_default
    apply hreduced.bind_default
    apply hpatterns.bind_default
    apply hconfidence.bind_default
    rfl
  · simp only [List.forall_mem_cons, hsession.passes, hlocal.passes, hready.passes,
      hreduced.passes, hpatterns.passes, hconfidence.passes]
    simp

namespace DependencyConfig

/-- What may be left of a list of rules, with the keys that are gone from the rule at each place. -/
def LeavesRules (rules : Nat → List String) (v w : Json) : Prop :=
  ∃ whole left, v = .array whole ∧ w = .array left ∧
    List.Forall₂ (fun (rule, i) rest => Leaves (rules i) (fun _ => Eq) rule rest) whole.zipIdx left

/-- The dependencies section with built-in rules if the rules are gone, and with the built-in effort
in the rules from which it is gone. -/
def overlay (gone : List String) (rules : Nat → List String) (c : DependencyConfig) :
    DependencyConfig where
  rules :=
    if "rules" ∈ gone then ({} : DependencyConfig).rules
    else c.rules.zipIdx.map fun (r, i) => r.overlay (rules i)

/-- The first key that is missing in the first rule that lacks one. -/
def missing (gone : List String) (rules : Nat → List String) (c : DependencyConfig) :
    Option String :=
  if "rules" ∈ gone then none
  else c.rules.zipIdx.findSome? fun (_, i) => DependencyRule.missing (rules i)

theorem leavesRules_self (given : List DependencyRule) :
    LeavesRules (fun _ => []) (.array (given.map DependencyRule.toJson))
      (.array (given.map DependencyRule.toJson)) := by
  refine ⟨_, _, rfl, rfl, ?_⟩
  rw [List.forall₂_iff_get]
  refine ⟨List.length_zipIdx, fun i _ _ => ?_⟩
  simp only [List.get_eq_getElem, List.getElem_zipIdx, List.getElem_map]
  exact .refl (by simp) fun _ _ => rfl

theorem decode_leavesRules {rules : Nat → List String} {given : List DependencyRule} {w : Json}
    (h : LeavesRules rules (.array (given.map DependencyRule.toJson)) w) :
    decodeList DependencyRule.decode w =
      unlessMissing (given.zipIdx.findSome? fun (_, i) => DependencyRule.missing (rules i))
        (given.zipIdx.map fun (r, i) => r.overlay (rules i)) := by
  obtain ⟨_, left, hwhole, rfl, hleft⟩ := h
  obtain rfl := Json.array.inj hwhole
  rw [List.zipIdx_map, List.forall₂_map_left_iff] at hleft
  exact decodeItems_eq_unlessMissing (hleft.imp fun _ _ h => DependencyRule.decode_leaves h)

theorem decode_leaves {gone : List String} {rules : Nat → List String} {c : DependencyConfig}
    {rest : Json} (h : Leaves gone (fun _ => LeavesRules rules) c.toJson rest) :
    decode rest = unlessMissing (c.missing gone rules) (c.overlay gone rules) := by
  obtain ⟨left, rfl⟩ := h.exists_object
  rw [decode]
  rcases h.left_or_lacks rulesField _ (List.mem_singleton_self _) fun _ => decode_leavesRules with
    ⟨hmissing, hrules⟩ | ⟨key, hmissing, hrules⟩
  · rw [decodeRecord_object]
    · apply hrules.bind_default
      exact (congrArg (unlessMissing · (c.overlay gone rules)) hmissing).symm
    · exact List.forall_mem_singleton.mpr hrules.passes
  · rw [hrules.decodeRecord (List.mem_singleton_self _)]
    · exact (congrArg (unlessMissing · (c.overlay gone rules)) hmissing).symm
    · exact List.forall_mem_singleton.mpr (.inl rfl)

end DependencyConfig

/-- Keys that are gone: at the top, from each section and from the rule at each place. -/
structure Omission where
  top : List String := []
  scanner : List String := []
  dependencies : List String := []
  cloud : List String := []
  rules : Nat → List String := fun _ => []

namespace Omission

def part (o : Omission) (key : String) : Json → Json → Prop :=
  if key = "scanner" then Json.Leaves o.scanner fun _ => Eq
  else if key = "dependencies" then
    Json.Leaves o.dependencies fun _ => DependencyConfig.LeavesRules o.rules
  else if key = "cloud" then Json.Leaves o.cloud fun _ => Eq
  else Eq

/-- What may be left of a configuration, with keys that nobody knows in all places. -/
def Leaves (o : Omission) : Json → Json → Prop :=
  Json.Leaves o.top o.part

/-- The first key that is missing in the first rule that lacks one. -/
def missing (o : Omission) (c : Config) : Option String :=
  if "dependencies" ∈ o.top then none else c.dependencies.missing o.dependencies o.rules

/-- Nothing is missing iff every rule has what it needs or no rule is left. -/
theorem missing_eq_none_iff (o : Omission) (c : Config) :
    o.missing c = none ↔ "dependencies" ∈ o.top ∨ "rules" ∈ o.dependencies ∨
      ∀ i < c.dependencies.rules.length, ∀ key ∈ DependencyRule.required, key ∉ o.rules i := by
  by_cases htop : "dependencies" ∈ o.top
  · simp [missing, htop]
  by_cases hrules : "rules" ∈ o.dependencies
  · simp [missing, DependencyConfig.missing, htop, hrules]
  rw [missing, if_neg htop, DependencyConfig.missing, if_neg hrules, List.findSome?_eq_none_iff]
  simp only [htop, hrules, false_or, DependencyRule.missing, List.find?_eq_none,
    decide_eq_true_eq, Prod.forall, List.mk_mem_zipIdx_iff_getElem?]
  constructor
  · intro h i hi
    exact h _ i (List.getElem?_eq_getElem hi)
  · intro h r i hr
    exact h i (List.getElem?_eq_some_iff.mp hr).1

theorem leaves_self (c : Config) : Leaves {} c.toJson c.toJson := by
  have hscanner : Json.Leaves [] (fun _ => Eq) c.scanner.toJson c.scanner.toJson :=
    .refl (by simp) fun _ _ => rfl
  have hcloud : Json.Leaves [] (fun _ => Eq) c.cloud.toJson c.cloud.toJson :=
    .refl (by simp) fun _ _ => rfl
  have hdependencies : Json.Leaves [] (fun _ => DependencyConfig.LeavesRules fun _ => [])
      c.dependencies.toJson c.dependencies.toJson :=
    .refl (by simp) (List.forall_mem_singleton.mpr (DependencyConfig.leavesRules_self _))
  apply Json.Leaves.refl
  · simp
  · simp [part, hscanner, hcloud, hdependencies]

end Omission

namespace Config

/-- The configuration with built-in values for the fields that are gone. -/
def overlay (o : Omission) (c : Config) : Config where
  version := if "version" ∈ o.top then ({} : Config).version else c.version
  scanner := if "scanner" ∈ o.top then {} else c.scanner.overlay o.scanner
  dependencies :=
    if "dependencies" ∈ o.top then {} else c.dependencies.overlay o.dependencies o.rules
  cloud := if "cloud" ∈ o.top then {} else c.cloud.overlay o.cloud
  excludedPaths := if "excluded_paths" ∈ o.top then ({} : Config).excludedPaths else c.excludedPaths
  maxFileBytes := if "max_file_bytes" ∈ o.top then ({} : Config).maxFileBytes else c.maxFileBytes

theorem decode_leaves {o : Omission} {c : Config} {rest : Json} (h : o.Leaves c.toJson rest) :
    decode rest = unlessMissing (o.missing c) (c.overlay o) := by
  obtain ⟨left, rfl⟩ := h.exists_object
  have hversion : versionField.Left o.top _ c.version :=
    h.field (by simp [versionField, Field.default]) (exact_string.undoes.reads _)
  have hscanner : scannerField.Left o.top _ (c.scanner.overlay o.scanner) :=
    h.field (by simp [scannerField, Field.default]) fun _ => ScannerConfig.decode_leaves
  have hcloud : cloudField.Left o.top _ (c.cloud.overlay o.cloud) :=
    h.field (by simp [cloudField, Field.default]) fun _ => CloudConfig.decode_leaves
  have hexcluded : excludedPathsField.Left o.top _ c.excludedPaths :=
    h.field (by simp [excludedPathsField, Field.default]) (exact_strings.undoes.reads _)
  have hbytes : maxFileBytesField.Left o.top _ c.maxFileBytes :=
    h.field (by simp [maxFileBytesField, Field.default]) (exact_word64.undoes.reads _)
  rw [decode]
  rcases h.left_or_lacks dependenciesField c.dependencies.toJson
    (by simp [dependenciesField, Field.default]) fun _ => DependencyConfig.decode_leaves with
    ⟨hmissing, hdependencies⟩ | ⟨key, hmissing, hdependencies⟩
  · rw [decodeRecord_object, show o.missing c = none from hmissing]
    · apply hversion.bind_default
      apply hscanner.bind_default
      apply hdependencies.bind_default
      apply hcloud.bind_default
      apply hexcluded.bind_default
      apply hbytes.bind_default
      rfl
    · simp only [List.forall_mem_cons, hversion.passes, hscanner.passes, hdependencies.passes,
        hcloud.passes, hexcluded.passes, hbytes.passes]
      simp
  · rw [hdependencies.decodeRecord (by simp), show o.missing c = some key from hmissing]
    · rfl
    · simp [hversion.passes, hscanner.passes, hcloud.passes, hexcluded.passes, hbytes.passes]

theorem overlay_empty (c : Config) : c.overlay {} = c := by
  have hrules : c.dependencies.overlay [] (fun _ => []) = c.dependencies := by
    simp [DependencyConfig.overlay, DependencyRule.overlay]
  simp [overlay, ScannerConfig.overlay, CloudConfig.overlay, hrules]

/-- A configuration of which any fields are left is read with the built-in values of the others, in
whatever order the fields stand and whatever else there is. It is not read if a rule lacks a key
that it needs. -/
theorem decode_overlays (c : Config) :
    decode c.toJson = .ok c ∧
      ∀ o : Omission,
        (o.missing c = none ↔ "dependencies" ∈ o.top ∨ "rules" ∈ o.dependencies ∨
          ∀ i < c.dependencies.rules.length, ∀ key ∈ DependencyRule.required, key ∉ o.rules i) ∧
        ∀ rest, o.Leaves c.toJson rest →
          decode rest = unlessMissing (o.missing c) (c.overlay o) := by
  constructor
  · rw [decode_leaves (Omission.leaves_self c), overlay_empty,
      (Omission.missing_eq_none_iff _ _).mpr (by simp)]
    rfl
  · intro o
    exact ⟨o.missing_eq_none_iff c, fun rest => decode_leaves⟩

/-- A configuration with one rule, which has an effort of its own. -/
def sample : Config where
  scanner := { largeFileLines := 250 }
  dependencies := { rules := [{ DependencyRule.log4j with estimatedEffort := "one day" }] }

/-- Most of the sample is gone, and one key of its rule. -/
def sampleOmission (key : String) : Omission where
  top := ["version", "cloud", "excluded_paths", "max_file_bytes"]
  scanner := ["confidence", "sql_keywords", "loop_keywords", "persistence_keywords"]
  rules := fun _ => [key]

def sampleRule (key : String) : Json :=
  .object ([("name", .string "Log4j"), ("contains", .strings ["log4j"]),
    ("status", .string "vulnerable"), ("severity", .string "high"), ("type", .string "library"),
    ("migration_complexity", .string "moderate"),
    ("recommendation", .string "Replace Log4j with Logback"),
    ("estimated_effort", .string "one day")].filter (·.1 ∉ [key]))

/-- What is left of the scanner section, with a key that nobody knows. -/
def sampleScanner : Json :=
  .object [("large_file_lines", .nat 250), ("note", .null)]

/-- What is left of the sample, with a key that nobody knows. -/
def sampleRest (key : String) : Json :=
  .object [("scanner", sampleScanner),
    ("dependencies", .object [("rules", .array [sampleRule key])]), ("theme", .string "dark")]

theorem leaves_sample (key : String) :
    (sampleOmission key).Leaves sample.toJson (sampleRest key) := by
  have hscanner : Leaves (sampleOmission key).scanner (fun _ => Eq) sample.scanner.toJson
      sampleScanner := by
    apply Leaves.of_perm [("note", .null)] (by simp) fun _ _ => rfl
    · simp
    · simp [sampleOmission, sample]
  have hrule : DependencyConfig.LeavesRules (fun _ => [key])
      (.array (sample.dependencies.rules.map DependencyRule.toJson)) (.array [sampleRule key]) := by
    refine ⟨_, _, rfl, rfl, .cons ?_ .nil⟩
    exact Leaves.of_perm [] (by simp) (fun _ _ => rfl) (List.forall_mem_nil _)
      (.of_eq (List.append_nil _).symm)
  have hdependencies : Leaves [] (fun _ => DependencyConfig.LeavesRules fun _ => [key])
      sample.dependencies.toJson (.object [("rules", .array [sampleRule key])]) := by
    apply Leaves.intro (fun _ => .array [sampleRule key]) _ (List.forall_mem_nil _)
    · simp
    · exact List.forall_mem_singleton.mpr fun _ => hrule
  apply Leaves.intro
    (fun name =>
      if name = "scanner" then sampleScanner else .object [("rules", .array [sampleRule key])]) _
    (List.forall_mem_singleton.mpr _) (.of_eq (by rfl))
  · simpa [sampleOmission, Omission.part, hdependencies] using hscanner
  · simp

/-- The effort of a rule may be gone, and it is not taken from the built-in rule of that name. -/
theorem decode_overlays_sample :
    (sampleOmission "estimated_effort").Leaves sample.toJson (sampleRest "estimated_effort") ∧
    (sampleOmission "severity").Leaves sample.toJson (sampleRest "severity") ∧
    decode (sampleRest "estimated_effort") =
      .ok { sample with dependencies.rules :=
        [{ DependencyRule.log4j with estimatedEffort := "2-4 weeks" }] } ∧
    decode (sampleRest "severity") = .error (.missingField "severity") := by
  obtain ⟨_, hpartial⟩ := decode_overlays sample
  refine ⟨leaves_sample _, leaves_sample _, ?_, ?_⟩
  · rw [(hpartial _).2 _ (leaves_sample "estimated_effort")]
    rfl
  · rw [(hpartial _).2 _ (leaves_sample "severity")]
    rfl

end Config

end LegacyAudit
