import LegacyAudit.Proofs.Json.Objects
import LegacyAudit.Proofs.Json.Text
import LegacyAudit.Proofs.Report.Instants
import LegacyAudit.Report.Basic

/-!
# What a report for programs tells

The text of a report tells everything but one thing: a leap second in the middle of a minute is
written like the second behind it. Every record in a report is an object with keys of its own, in
which the parts of the report are found.

## Main definitions

- `injective_of_lookup` - tags can be told from one another
- `Report.shown` - the report that the text of another one shows
- `Report.ToldBy` - what a lookup finds in the JSON form of a report
- `Report.json_tells` - the text of a report tells what it shows

## Design notes

A clock has no leap seconds, and leap seconds that are read end their minute, so that reports on
such jobs are shown as they are. But a leap second can be put anywhere by setting the nanoseconds of
a point in time, and `Timestamp` has room for that.
-/

namespace LegacyAudit

namespace Json

theorem string_injective : Function.Injective Json.string := fun _ _ => Json.string.inj

theorem strings_inj {items items' : List String} :
    strings items = strings items' ↔ items = items' := by
  rw [strings, strings, Json.array.injEq, string_injective.list_map.eq_iff]

theorem nat_inj {m n : Nat} : nat m = nat n ↔ m = n := by
  rw [nat, nat, Json.whole.injEq, Int.ofNat_inj]

theorem map_string_inj {x y : Option String} : x.map Json.string = y.map Json.string ↔ x = y :=
  (Option.map_injective string_injective).eq_iff

end Json

theorem injective_of_lookup {α : Type} (table : List (String × α)) {name : α → String}
    (h : ∀ a, table.lookup (name a) = some a) : Function.Injective name := by
  intro a b hname
  have ha := h a
  rw [hname, h b] at ha
  exact (Option.some.inj ha).symm

theorem JobStatus.name_injective : Function.Injective JobStatus.name :=
  injective_of_lookup JobStatus.byName fun status => by cases status <;> rfl

theorem AnalysisDepth.name_injective : Function.Injective AnalysisDepth.name :=
  injective_of_lookup AnalysisDepth.byName fun depth => by cases depth <;> rfl

theorem FindingKind.name_injective : Function.Injective FindingKind.name :=
  injective_of_lookup FindingKind.byName fun kind => by cases kind <;> rfl

theorem Severity.name_injective : Function.Injective Severity.name :=
  injective_of_lookup Severity.byName fun severity => by cases severity <;> rfl

theorem RecommendationKind.name_injective : Function.Injective RecommendationKind.name :=
  injective_of_lookup RecommendationKind.byName fun kind => by cases kind <;> rfl

theorem Priority.name_injective : Function.Injective Priority.name :=
  injective_of_lookup Priority.byName fun priority => by cases priority <;> rfl

theorem DependencyStatus.name_injective : Function.Injective DependencyStatus.name :=
  injective_of_lookup DependencyStatus.byName fun status => by cases status <;> rfl

theorem MigrationComplexity.name_injective : Function.Injective MigrationComplexity.name :=
  injective_of_lookup MigrationComplexity.byName fun complexity => by cases complexity <;> rfl

theorem JobId.toJson_injective : Function.Injective JobId.toJson := by
  intro a b h
  exact JobId.text_injective (Json.string.inj h)

def ProjectMetadata.entries (m : ProjectMetadata) : List (String × Option Json) :=
  [("name", some (.string m.name)), ("description", m.description.map .string),
    ("target_platform", m.targetPlatform.map .string),
    ("analysis_depth", some (.string m.analysisDepth.name))]

theorem ProjectMetadata.writtenAs : Json.WrittenAs toJson entries where
  written m := by
    obtain ⟨_, description, targetPlatform, _⟩ := m
    cases description <;> cases targetPlatform <;> rfl
  keyed := ⟨["name", "description", "target_platform", "analysis_depth"], by decide, fun _ => rfl⟩

theorem ProjectMetadata.toJson_injective : Function.Injective ProjectMetadata.toJson := by
  intro m m' h
  have hentries := writtenAs.entries_eq h
  simp only [entries, List.cons.injEq, Prod.mk.injEq, Option.some.injEq, Json.string.injEq,
    Json.map_string_inj, AnalysisDepth.name_injective.eq_iff] at hentries
  cases m
  cases m'
  simp_all

def Finding.entries (f : Finding) : List (String × Option Json) :=
  [("job_id", some f.jobId.toJson), ("type", some (.string f.kind.name)),
    ("severity", some (.string f.severity.name)), ("title", some (.string f.title)),
    ("description", some (.string f.description)), ("location", some (.string f.location)),
    ("code_snippet", f.codeSnippet.map .string), ("suggested_fix", f.suggestedFix.map .string),
    ("confidence", some (.nat f.confidence.toNat))]

theorem Finding.writtenAs : Json.WrittenAs toJson entries where
  written f := by
    obtain ⟨_, _, _, _, _, _, codeSnippet, suggestedFix, _⟩ := f
    cases codeSnippet <;> cases suggestedFix <;> rfl
  keyed := ⟨["job_id", "type", "severity", "title", "description", "location", "code_snippet",
    "suggested_fix", "confidence"], by decide, fun _ => rfl⟩

theorem Finding.toJson_injective : Function.Injective Finding.toJson := by
  intro f f' h
  have hentries := writtenAs.entries_eq h
  simp only [entries, List.cons.injEq, Prod.mk.injEq, Option.some.injEq, Json.string.injEq,
    Json.map_string_inj, Json.nat_inj, UInt8.toNat_inj, JobId.toJson_injective.eq_iff,
    FindingKind.name_injective.eq_iff, Severity.name_injective.eq_iff] at hentries
  cases f
  cases f'
  simp_all

def Recommendation.entries (r : Recommendation) : List (String × Option Json) :=
  [("job_id", some r.jobId.toJson), ("type", some (.string r.kind.name)),
    ("priority", some (.string r.priority.name)), ("title", some (.string r.title)),
    ("description", some (.string r.description)),
    ("estimated_effort", some (.string r.estimatedEffort)),
    ("benefits", some (.strings r.benefits)),
    ("implementation_steps", some (.strings r.implementationSteps))]

theorem Recommendation.writtenAs : Json.WrittenAs toJson entries where
  written _ := rfl
  keyed := ⟨["job_id", "type", "priority", "title", "description", "estimated_effort", "benefits",
    "implementation_steps"], by decide, fun _ => rfl⟩

theorem Recommendation.toJson_injective : Function.Injective Recommendation.toJson := by
  intro r r' h
  have hentries := writtenAs.entries_eq h
  simp only [entries, List.cons.injEq, Prod.mk.injEq, Option.some.injEq, Json.string.injEq,
    Json.strings_inj, JobId.toJson_injective.eq_iff, RecommendationKind.name_injective.eq_iff,
    Priority.name_injective.eq_iff] at hentries
  cases r
  cases r'
  simp_all

def Dependency.entries (d : Dependency) : List (String × Option Json) :=
  [("job_id", some d.jobId.toJson), ("name", some (.string d.name)),
    ("type", some (.string d.dependencyType)), ("status", some (.string d.status.name)),
    ("severity", some (.string d.severity.name)),
    ("migration_complexity", some (.string d.migrationComplexity.name))]

theorem Dependency.writtenAs : Json.WrittenAs toJson entries where
  written _ := rfl
  keyed := ⟨["job_id", "name", "type", "status", "severity", "migration_complexity"], by decide,
    fun _ => rfl⟩

theorem Dependency.toJson_injective : Function.Injective Dependency.toJson := by
  intro d d' h
  have hentries := writtenAs.entries_eq h
  simp only [entries, List.cons.injEq, Prod.mk.injEq, Option.some.injEq, Json.string.injEq,
    JobId.toJson_injective.eq_iff, DependencyStatus.name_injective.eq_iff,
    Severity.name_injective.eq_iff, MigrationComplexity.name_injective.eq_iff] at hentries
  cases d
  cases d'
  simp_all

def JobSummary.entries (s : JobSummary) : List (String × Option Json) :=
  [("id", some s.id.toJson), ("metadata", some s.metadata.toJson),
    ("status", some (.string s.status.name)), ("progress", some (.nat s.progress.toNat)),
    ("error_message", s.errorMessage.map .string), ("created_at", some s.createdAt.toJson),
    ("updated_at", some s.updatedAt.toJson), ("completed_at", s.completedAt.map Timestamp.toJson),
    ("files_submitted", some (.nat s.filesSubmitted)),
    ("files_analyzed", some (.nat s.filesAnalyzed)),
    ("findings", some (.array (s.findings.map Finding.toJson))),
    ("recommendations", some (.array (s.recommendations.map Recommendation.toJson))),
    ("dependencies", some (.array (s.dependencies.map Dependency.toJson)))]

def JobSummary.keys : List String :=
  ["id", "metadata", "status", "progress", "error_message", "created_at", "updated_at",
    "completed_at", "files_submitted", "files_analyzed", "findings", "recommendations",
    "dependencies"]

theorem JobSummary.members_eq (s : JobSummary) :
    s.members = s.entries.filterMap fun entry => entry.2.map (entry.1, ·) := by
  obtain ⟨_, _, _, _, errorMessage, _, _, completedAt, _, _, _, _, _⟩ := s
  cases errorMessage <;> cases completedAt <;> rfl

theorem Timestamp.toJson_eq_iff {t u : Timestamp} : t.toJson = u.toJson ↔ t.shown = u.shown := by
  rw [toJson, toJson, Json.string.injEq, text_eq_iff]

theorem Timestamp.map_toJson_eq_iff {x y : Option Timestamp} :
    x.map toJson = y.map toJson ↔ x.map shown = y.map shown := by
  cases x <;> cases y <;> simp [toJson_eq_iff]

/-- The summary with the points in time that its text shows. -/
def JobSummary.shown (s : JobSummary) : JobSummary :=
  { s with
    createdAt := s.createdAt.shown
    updatedAt := s.updatedAt.shown
    completedAt := s.completedAt.map Timestamp.shown }

theorem JobSummary.shown_eq_self {s : JobSummary} (h : s.IsCivil) : s.shown = s := by
  have hcompleted : s.completedAt.map Timestamp.shown = s.completedAt := by
    cases hat : s.completedAt with
    | none => rfl
    | some t => rw [Option.map_some, Timestamp.shown_eq_self (h.completed t hat)]
  rw [shown, Timestamp.shown_eq_self h.created, Timestamp.shown_eq_self h.updated, hcompleted]

theorem JobSummary.entries_eq_iff {s s' : JobSummary} :
    s.entries = s'.entries ↔ s.shown = s'.shown := by
  simp only [entries, shown, List.cons.injEq, Prod.mk.injEq, Option.some.injEq, Json.string.injEq,
    Json.array.injEq, Json.map_string_inj, Json.nat_inj, UInt8.toNat_inj,
    JobId.toJson_injective.eq_iff, ProjectMetadata.toJson_injective.eq_iff,
    JobStatus.name_injective.eq_iff, Timestamp.toJson_eq_iff, Timestamp.map_toJson_eq_iff,
    Finding.toJson_injective.list_map.eq_iff, Recommendation.toJson_injective.list_map.eq_iff,
    Dependency.toJson_injective.list_map.eq_iff, JobSummary.mk.injEq, true_and, and_true]

namespace Report

/-- The keys that a report has besides those of its summary. -/
def ownKeys : List String :=
  ["version", "path", "config"]

/-- The entries of a report, those of the summary among them. -/
def entries (report : Report) : List (String × Option Json) :=
  [("version", some (.string programVersion)), ("path", some (.string report.path)),
    ("config", report.configPath.map .string)] ++ report.job.entries

theorem writtenAs : Json.WrittenAs toJson entries where
  written report := by
    rw [toJson, JobSummary.members_eq]
    cases h : report.configPath <;> simp [Json.record, entries, Json.optional, h]
  keyed := ⟨ownKeys ++ JobSummary.keys, by decide, fun _ => rfl⟩

/-- The report that the text of another one shows. -/
def shown (report : Report) : Report :=
  { report with job := report.job.shown }

theorem shown_eq_self {report : Report} (h : report.job.IsCivil) : report.shown = report := by
  rw [shown, JobSummary.shown_eq_self h]

theorem json_eq_iff {r s : Report} : r.json = s.json ↔ r.shown = s.shown := by
  have hentries : r.toJson = s.toJson ↔ r.entries = s.entries := by
    constructor
    · exact writtenAs.entries_eq
    · intro h
      rw [writtenAs.written, writtenAs.written, h]
  rw [json, json, Json.pretty_injective.eq_iff, hentries]
  simp only [entries, shown, List.cons_append, List.nil_append, List.cons.injEq, Prod.mk.injEq,
    Option.some.injEq, Json.string.injEq, Json.map_string_inj, JobSummary.entries_eq_iff,
    Report.mk.injEq, true_and]

theorem not_mem_keys_members (s : JobSummary) {key : String} (hkey : key ∈ ownKeys) :
    key ∉ s.members.map Prod.fst := by
  intro hmem
  rw [JobSummary.members_eq] at hmem
  have hkeys : key ∈ JobSummary.keys := (Json.map_fst_record_sublist s.entries).subset hmem
  have happart : ∀ key ∈ ownKeys, key ∉ JobSummary.keys := by decide
  exact happart key hkey hkeys

/-- Lookups in a value find every part of a report, and nothing where the report lacks a part. -/
structure ToldBy (report : Report) (v : Json) : Prop where
  parts : v.Holds report.entries
  separate : ∀ key ∈ ownKeys, key ∉ report.job.members.map Prod.fst
  metadata : report.job.metadata.toJson.Holds report.job.metadata.entries
  findings : ∀ f ∈ report.job.findings, f.toJson.Holds f.entries
  recommendations : ∀ r ∈ report.job.recommendations, r.toJson.Holds r.entries
  dependencies : ∀ d ∈ report.job.dependencies, d.toJson.Holds d.entries

theorem toldBy_toJson (report : Report) : report.ToldBy report.toJson where
  parts := writtenAs.holds report
  separate _ hkey := not_mem_keys_members report.job hkey
  metadata := ProjectMetadata.writtenAs.holds _
  findings f _ := Finding.writtenAs.holds f
  recommendations r _ := Recommendation.writtenAs.holds r
  dependencies d _ := Dependency.writtenAs.holds d

/-- The text of a report tells what it shows, and nothing else. Civil points in time are shown as
they are, and all those that are read are civil. The text is that of one value only, in which the
parts of the report are found under their keys. -/
theorem json_tells (r s : Report) :
    (r.json = s.json ↔ r.shown = s.shown) ∧
      (r.job.IsCivil → s.job.IsCivil → (r.json = s.json ↔ r = s)) ∧
      (∀ (v : Json) (job : Job), Job.decode v = .ok job → job.summary.IsCivil) ∧
      ∃ v : Json, (∀ w : Json, w.pretty = r.json ↔ w = v) ∧ r.ToldBy v := by
  refine ⟨json_eq_iff, ?_, fun _ _ => Job.isCivil_of_decode, r.toJson, ?_, toldBy_toJson r⟩
  · intro hr hs
    rw [json_eq_iff, shown_eq_self hr, shown_eq_self hs]
  · intro w
    exact Json.pretty_injective.eq_iff

/-- A report on a finding that comes with a fix or without one. -/
def sample (createdAt : Timestamp) (suggestedFix : Option String) : Report where
  path := "src"
  configPath := none
  job := {
    id := ⟨7⟩
    metadata := { name := "ledger" }
    status := .completed
    progress := 100
    errorMessage := none
    createdAt
    updatedAt := { date := ⟨2016, 12, 31⟩, second := 86399, nanosecond := 1500000000 }
    completedAt := none
    filesSubmitted := 1
    filesAnalyzed := 1
    findings := [{
      jobId := ⟨7⟩
      kind := .security
      severity := .high
      title := "Embedded \"SQL\""
      description := ""
      location := "a.cbl:3"
      codeSnippet := none
      suggestedFix
      confidence := 80
    }]
    recommendations := []
    dependencies := []
  }

/-- A leap second one hour after midnight. -/
def leapAtOne : Timestamp where
  date := ⟨2024, 2, 29⟩
  second := 3600
  nanosecond := 1500000000

/-- The second behind it. -/
def secondPastOne : Timestamp where
  date := ⟨2024, 2, 29⟩
  second := 3601
  nanosecond := 500000000

theorem isCivil_sample (suggestedFix : Option String) :
    (sample secondPastOne suggestedFix).job.IsCivil where
  created := .inl (by simp [sample, secondPastOne])
  updated := .inr (by simp [sample])
  completed := by simp [sample]

/-- A missing fix is no fix that says it is missing. -/
theorem json_tells_sample :
    (sample secondPastOne none).json ≠ (sample secondPastOne (some "null")).json ∧
      ∃ v : Json, (∀ w : Json, w.pretty = (sample secondPastOne none).json ↔ w = v) ∧
        (sample secondPastOne none).ToldBy v := by
  obtain ⟨_, hinjective, _, htold⟩ :=
    json_tells (sample secondPastOne none) (sample secondPastOne (some "null"))
  refine ⟨?_, htold⟩
  rw [Ne, hinjective (isCivil_sample none) (isCivil_sample (some "null"))]
  decide

/-- Two reports with one text: one of the jobs was created in a leap second at one o'clock and the
other one in the second behind it, which is `01:00:01.500Z` for both. -/
theorem json_confuses_leap_second :
    (sample leapAtOne none).json = (sample secondPastOne none).json ∧
      sample leapAtOne none ≠ sample secondPastOne none ∧
      leapAtOne.text = "2024-02-29T01:00:01.500Z" := by
  refine ⟨json_eq_iff.mpr ?_, by decide, by decide +kernel⟩
  decide

end Report

end LegacyAudit
