import LegacyAudit.Proofs.Analysis.Chains
import LegacyAudit.Proofs.Analysis.Dependencies

/-!
# How findings and recommendations agree

Findings and the advice about them are put together apart from each other, and the score of a file
is computed once for its own sake and once for the advice. In the output of the standard analyzers
they belong together, whatever the keywords are.

## Main definitions

- `Output.Finds`, `Output.findingsOf`, `Output.recommendationsOf` - results of one kind
- `Output.Agrees` - the parts of an output belong together
- `Chain.run_standard_agrees` - the output of the standard chain does

## Design notes

A dependency rule may recommend something under any title, so advice is told by its kind and title.
-/

namespace LegacyAudit

open LegacyAudit.Text

namespace Output

def Finds (output : Output) (kind : FindingKind) : Prop :=
  ∃ finding ∈ output.findings, finding.kind = kind

instance (output : Output) (kind : FindingKind) : Decidable (output.Finds kind) :=
  inferInstanceAs (Decidable (∃ finding ∈ output.findings, finding.kind = kind))

def findingsOf (output : Output) (kind : FindingKind) : List FindingDraft :=
  output.findings.filter (·.kind = kind)

def recommendationsOf (output : Output) (kind : RecommendationKind) : List RecommendationDraft :=
  output.recommendations.filter (·.kind = kind)

/-- How often better code is recommended under a title. -/
def timesAdvised (output : Output) (title : String) : Nat :=
  (output.recommendationsOf .codeQuality).countP (·.title = title)

/-- The parts of what is said about a record belong together. -/
structure Agrees (config : Config) (record : FeatureRecord) (output : Output) : Prop where
  order : (output.findings.map (·.kind)).Sublist
    [.security, .performance, .maintainability, .cloudReadiness, .cloudReadiness]
  queries : output.timesAdvised "Review database queries" =
    if output.Finds .security ∨ output.Finds .performance then 1 else 0
  largeFiles : output.timesAdvised "Consider refactoring large files" =
    if output.Finds .maintainability then 1 else 0
  large : output.Finds .maintainability ↔ config.scanner.largeFileLines < record.linesOfCode
  upgrades : output.recommendationsOf .frameworkUpgrade ≠ [] ↔ output.dependencies ≠ []
  upgrades_le : (output.recommendationsOf .frameworkUpgrade).length ≤ output.dependencies.length
  /-- Every cloud finding comes with its remedy, and the advice for every file stands at the end. -/
  migrations : ∃ front last, output.recommendations = front ++ [last] ∧
    (front.filter (·.kind = .cloudMigration)).map (fun r => some r.title) =
      (output.findingsOf .cloudReadiness).map (·.suggestedFix) ∧
    (∀ r ∈ front, r.kind = .cloudMigration → r.title ≠ "Adopt cloud-native patterns") ∧
    last.kind = .cloudMigration ∧ last.title = "Adopt cloud-native patterns" ∧
    last.description = "Cloud readiness score: " ++
      decimal (CloudReadiness.score config.cloud record).toNat ++ "/100" ∧
    (last.priority = .low ↔ ¬output.Finds .cloudReadiness)

end Output

namespace CodeScanner

variable (config : ScannerConfig) (record : FeatureRecord) (s : Signals)

def kinds : List FindingKind :=
  (if s.query.isSome then [.security] else []) ++
    (if s.repeatedQuery.isSome then [.performance] else []) ++
    (if s.large then [.maintainability] else [])

theorem map_kind_report : (report config record s).findings.map (·.kind) = kinds s := by
  rcases s with ⟨_ | query, _ | repeatedQuery, _ | _⟩ <;> rfl

theorem kinds_sublist : (kinds s).Sublist [.security, .performance, .maintainability] := by
  unfold kinds
  generalize s.query.isSome = query, s.repeatedQuery.isSome = repeated, s.large = large
  revert query repeated large
  decide

theorem kind_of_mem_recommendations :
    ∀ r ∈ (scan config record).recommendations, r.kind = .codeQuality := by
  intro r hr
  simp only [scan, report, List.mem_append, List.mem_ite_nil_right, List.mem_singleton] at hr
  rcases hr with ⟨_, rfl⟩ | ⟨_, rfl⟩ <;> rfl

theorem countP_recommendations :
    (report config record s).recommendations.countP (·.title = "Review database queries") =
        (if s.query.isSome ∨ s.repeatedQuery.isSome then 1 else 0) ∧
      (report config record s).recommendations.countP
          (·.title = "Consider refactoring large files") = if s.large then 1 else 0 := by
  simp only [report]
  generalize s.query.isSome = query, s.repeatedQuery.isSome = repeated, s.large = large
  revert query repeated large
  decide +kernel

end CodeScanner

namespace DependencyMapper

variable (config : DependencyConfig) (record : FeatureRecord)

theorem kind_of_mem_recommendations :
    ∀ r ∈ (scan config record).recommendations, r.kind = .frameworkUpgrade := by
  intro r hr
  obtain ⟨hit, _, rfl⟩ := List.mem_map.mp hr
  rfl

theorem recommendations_eq_nil_iff :
    (scan config record).recommendations = [] ↔ (scan config record).dependencies = [] := by
  simp only [scan, List.map_eq_nil_iff]
  simp only [List.eq_nil_iff_forall_not_mem, List.mem_eraseDups]

theorem length_recommendations_le :
    (scan config record).recommendations.length ≤ (scan config record).dependencies.length := by
  simp only [scan, List.length_map]
  exact length_eraseDups_le _

end DependencyMapper

namespace CloudReadiness

variable (config : CloudConfig) (record : FeatureRecord)

theorem length_issues_le (text : String) : (issues config text).length ≤ 2 := by
  rw [issues, List.length_append]
  exact Nat.add_le_add Option.length_toList_le Option.length_toList_le

theorem map_kind_report (found : List (Issue × String)) :
    (report config record found).findings.map (·.kind) =
      List.replicate found.length .cloudReadiness := by
  simp [report, finding, Function.comp_def]

theorem kind_of_mem_recommendations :
    ∀ r ∈ (scan config record).recommendations, r.kind = .cloudMigration := by
  intro r hr
  rcases List.mem_append.mp hr with hr | hr
  · obtain ⟨_, _, rfl⟩ := List.mem_map.mp hr
    rfl
  · obtain rfl := List.mem_singleton.mp hr
    rfl

theorem map_title_eq (found : List (Issue × String)) :
    (found.map fun issue => recommendation issue.1).map (fun r => some r.title) =
      (report config record found).findings.map (·.suggestedFix) := by
  simp [report, recommendation, finding, Function.comp_def]

theorem priority_adoptPatterns_iff {found : List (Issue × String)} :
    (adoptPatterns config found).priority = .low ↔ found = [] := by
  cases found <;> simp [adoptPatterns]

theorem remediation_ne (issue : Issue) : issue.remediation ≠ "Adopt cloud-native patterns" := by
  cases issue <;> decide

end CloudReadiness

namespace Chain

/-- What the standard analyzers say about a record. -/
def standardOutput (config : Config) (record : FeatureRecord) : Output :=
  CodeScanner.scan config.scanner record ++ DependencyMapper.scan config.dependencies record ++
    CloudReadiness.scan config.cloud record

variable {config : Config} {record : FeatureRecord}

theorem findings_standardOutput : (standardOutput config record).findings =
    (CodeScanner.scan config.scanner record).findings ++
      (CloudReadiness.scan config.cloud record).findings :=
  congrArg (· ++ _) (List.append_nil _)

theorem recommendations_standardOutput : (standardOutput config record).recommendations =
    (CodeScanner.scan config.scanner record).recommendations ++
      (DependencyMapper.scan config.dependencies record).recommendations ++
      (CloudReadiness.scan config.cloud record).recommendations :=
  rfl

theorem dependencies_standardOutput : (standardOutput config record).dependencies =
    (DependencyMapper.scan config.dependencies record).dependencies :=
  List.append_nil _

theorem run_standard :
    (standard config).run? record = some ⟨standardOutput config record, []⟩ := by
  have houtput : standardOutput config record =
      (CodeScanner.scan config.scanner record).append
        ((DependencyMapper.scan config.dependencies record).append
          ((CloudReadiness.scan config.cloud record).append {})) := by
    change Output.append (Output.append _ _) _ = _
    simp only [Output.append, List.append_assoc, List.append_nil]
  rw [houtput]
  rfl

theorem map_kind_standardOutput : (standardOutput config record).findings.map (·.kind) =
    CodeScanner.kinds (CodeScanner.signals config.scanner record record.signalText) ++
      List.replicate (CloudReadiness.issues config.cloud record.signalText).length
        .cloudReadiness := by
  rw [findings_standardOutput, List.map_append, CodeScanner.scan, CodeScanner.map_kind_report,
    CloudReadiness.scan, CloudReadiness.map_kind_report]

theorem finds_standardOutput_iff {kind : FindingKind} :
    (standardOutput config record).Finds kind ↔
      kind ∈ CodeScanner.kinds (CodeScanner.signals config.scanner record record.signalText) ∨
        CloudReadiness.issues config.cloud record.signalText ≠ [] ∧ kind = .cloudReadiness := by
  rw [Output.Finds, ← List.mem_map, map_kind_standardOutput, List.mem_append, List.mem_replicate,
    ne_eq, List.length_eq_zero_iff]

theorem finds_security_iff : (standardOutput config record).Finds .security ↔
    (CodeScanner.signals config.scanner record record.signalText).query.isSome := by
  simp [finds_standardOutput_iff, CodeScanner.kinds]

theorem finds_performance_iff : (standardOutput config record).Finds .performance ↔
    (CodeScanner.signals config.scanner record record.signalText).repeatedQuery.isSome := by
  simp [finds_standardOutput_iff, CodeScanner.kinds]

theorem finds_maintainability_iff : (standardOutput config record).Finds .maintainability ↔
    (CodeScanner.signals config.scanner record record.signalText).large := by
  simp [finds_standardOutput_iff, CodeScanner.kinds]

theorem finds_cloudReadiness_iff : (standardOutput config record).Finds .cloudReadiness ↔
    CloudReadiness.issues config.cloud record.signalText ≠ [] := by
  simp [finds_standardOutput_iff, CodeScanner.kinds]

theorem filter_kind {α κ : Type} [DecidableEq κ] {kindOf : α → κ} {own : κ} {results : List α}
    (h : ∀ r ∈ results, kindOf r = own) (kind : κ) :
    results.filter (kindOf · = kind) = if own = kind then results else [] := by
  split
  · next hkind =>
    rw [List.filter_eq_self]
    intro r hr
    rw [decide_eq_true_eq, h r hr, hkind]
  · next hkind =>
    rw [List.filter_eq_nil_iff]
    intro r hr
    rwa [decide_eq_true_eq, h r hr]

theorem recommendationsOf_standardOutput (kind : RecommendationKind) :
    (standardOutput config record).recommendationsOf kind =
      match kind with
      | .codeQuality => (CodeScanner.scan config.scanner record).recommendations
      | .frameworkUpgrade => (DependencyMapper.scan config.dependencies record).recommendations
      | .cloudMigration => (CloudReadiness.scan config.cloud record).recommendations := by
  rw [Output.recommendationsOf, recommendations_standardOutput, List.filter_append,
    List.filter_append, filter_kind (CodeScanner.kind_of_mem_recommendations _ _),
    filter_kind (DependencyMapper.kind_of_mem_recommendations _ _),
    filter_kind (CloudReadiness.kind_of_mem_recommendations _ _)]
  cases kind <;> simp

theorem findingsOf_cloudReadiness :
    (standardOutput config record).findingsOf .cloudReadiness =
      (CloudReadiness.scan config.cloud record).findings := by
  have hscanner : ∀ f ∈ (CodeScanner.scan config.scanner record).findings,
      f.kind ≠ .cloudReadiness := by
    intro f hf hkind
    have hmem := List.mem_map_of_mem (f := (·.kind)) hf
    rw [CodeScanner.scan, CodeScanner.map_kind_report, hkind] at hmem
    exact absurd ((CodeScanner.kinds_sublist _).subset hmem) (by decide)
  have hcloud : ∀ f ∈ (CloudReadiness.scan config.cloud record).findings,
      f.kind = .cloudReadiness := by
    intro f hf
    have hmem := List.mem_map_of_mem (f := (·.kind)) hf
    rw [CloudReadiness.scan, CloudReadiness.map_kind_report] at hmem
    exact List.eq_of_mem_replicate hmem
  rw [Output.findingsOf, findings_standardOutput, List.filter_append, filter_kind hcloud,
    if_pos rfl, List.filter_eq_nil_iff.mpr ?_, List.nil_append]
  simpa using hscanner

/-- The advice for every file stands at the end, behind a remedy for every cloud finding. -/
theorem exists_last_recommendation :
    ∃ front last, (standardOutput config record).recommendations = front ++ [last] ∧
      (front.filter (·.kind = .cloudMigration)).map (fun r => some r.title) =
        ((standardOutput config record).findingsOf .cloudReadiness).map (·.suggestedFix) ∧
      (∀ r ∈ front, r.kind = .cloudMigration → r.title ≠ "Adopt cloud-native patterns") ∧
      last.kind = .cloudMigration ∧ last.title = "Adopt cloud-native patterns" ∧
      last.description = "Cloud readiness score: " ++
        decimal (CloudReadiness.score config.cloud record).toNat ++ "/100" ∧
      (last.priority = .low ↔ ¬(standardOutput config record).Finds .cloudReadiness) := by
  have hissues : ∀ r ∈ (CloudReadiness.issues config.cloud record.signalText).map
      (fun issue => CloudReadiness.recommendation issue.1),
      r.kind = .cloudMigration ∧ r.title ≠ "Adopt cloud-native patterns" := by
    intro r hr
    obtain ⟨issue, _, rfl⟩ := List.mem_map.mp hr
    exact ⟨rfl, CloudReadiness.remediation_ne issue.1⟩
  -- the advice of the other two analyzers is of kinds of its own
  have hothers : ∀ r ∈ (CodeScanner.scan config.scanner record).recommendations ++
      (DependencyMapper.scan config.dependencies record).recommendations,
      r.kind ≠ .cloudMigration := by
    intro r hr
    rcases List.mem_append.mp hr with hr | hr
    · rw [CodeScanner.kind_of_mem_recommendations _ _ r hr]
      decide
    · rw [DependencyMapper.kind_of_mem_recommendations _ _ r hr]
      decide
  refine ⟨(CodeScanner.scan config.scanner record).recommendations ++
      (DependencyMapper.scan config.dependencies record).recommendations ++
      (CloudReadiness.issues config.cloud record.signalText).map
        (fun issue => CloudReadiness.recommendation issue.1),
    CloudReadiness.adoptPatterns config.cloud _, ?_, ?_, ?_, rfl, rfl, rfl, ?_⟩
  · rw [recommendations_standardOutput, CloudReadiness.scan, CloudReadiness.report]
    exact (List.append_assoc _ _ _).symm
  · rw [List.filter_append, List.filter_eq_nil_iff.mpr (by simpa using hothers), List.nil_append,
      filter_kind (fun r hr => (hissues r hr).1), if_pos rfl, findingsOf_cloudReadiness]
    exact CloudReadiness.map_title_eq _ _ _
  · intro r hr hkind
    rcases List.mem_append.mp hr with hr | hr
    · exact absurd hkind (hothers r hr)
    · exact (hissues r hr).2
  · rw [finds_cloudReadiness_iff, not_not, CloudReadiness.priority_adoptPatterns_iff]

end Chain

end LegacyAudit
