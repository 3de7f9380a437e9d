import LegacyAudit.Proofs.Analysis.Agreement
import LegacyAudit.Proofs.Analysis.Keywords

/-!
# What the signals of a record mean

The standard analyzers find something wherever a keyword of theirs is mentioned. Where they find
something with the built-in keywords, there is a text that contains the keyword or one of its
disguises.

## Main definitions

- `Output.FindsIssue` - a cloud finding is about an issue
- `Chain.signals_of_mentions` - every keyword that is mentioned leads to its finding
- `Chain.signals_iff`, `Chain.default_signals_iff` - what is behind the findings
-/

namespace LegacyAudit

open LegacyAudit.Text

def CloudReadiness.Issue.keywords (config : CloudConfig) : CloudReadiness.Issue → List String
  | .statefulSession => config.sessionKeywords
  | .localAddress => config.localNetworkLiterals

def Output.FindsIssue (output : Output) (issue : CloudReadiness.Issue) : Prop :=
  ∃ finding ∈ output.findingsOf .cloudReadiness, finding.title = issue.title

instance (output : Output) (issue : CloudReadiness.Issue) : Decidable (output.FindsIssue issue) :=
  inferInstanceAs (Decidable (∃ finding ∈ output.findingsOf .cloudReadiness, _))

section

variable {record : FeatureRecord}

theorem firstSignal?_isSome_iff {text : String} {keywords : List String} :
    (firstSignal? text keywords).isSome ↔
      ∃ keyword ∈ keywords, keyword ≠ "" ∧ contains text (lower keyword) = true := by
  simp [firstSignal?, List.find?_isSome]

theorem firstSignal?_signalText_iff {keywords : List String} (h : record.parseError = none)
    (hkeywords : ∀ keyword ∈ keywords, Foreign keyword.toList) :
    (firstSignal? record.signalText keywords).isSome ↔
      record.MentionsOneOf (keywords.flatMap forms) := by
  simp only [firstSignal?_isSome_iff, FeatureRecord.MentionsOneOf, List.mem_flatMap]
  constructor
  · rintro ⟨keyword, hmem, _, hcontains⟩
    obtain ⟨form, hform, hmention⟩ :=
      (contains_signalText_iff_forms (hkeywords keyword hmem) h).mp hcontains
    exact ⟨form, ⟨keyword, hmem, hform⟩, hmention⟩
  · rintro ⟨form, ⟨keyword, hmem, hform⟩, hmention⟩
    have hforeign := hkeywords keyword hmem
    refine ⟨keyword, hmem, ?_,
      (contains_signalText_iff_forms hforeign h).mpr ⟨form, hform, hmention⟩⟩
    rw [ne_eq, ← String.toList_eq_nil_iff]
    exact hforeign.ne_nil

end

namespace CloudReadiness

variable {config : CloudConfig} {text : String} {issue : Issue}

theorem Issue.title_injective : Function.Injective Issue.title := by
  rintro ⟨⟩ ⟨⟩ h
  all_goals first | rfl | exact absurd h (by decide)

theorem exists_mem_issues_iff : (∃ keyword, (issue, keyword) ∈ issues config text) ↔
    (firstSignal? text (issue.keywords config)).isSome := by
  cases issue <;> simp [issues, Issue.keywords, Option.isSome_iff_exists]

end CloudReadiness

namespace Chain

variable {config : Config} {record : FeatureRecord} {issue : CloudReadiness.Issue}

theorem finds_security_iff_signal : (standardOutput config record).Finds .security ↔
    (firstSignal? record.signalText config.scanner.sqlKeywords).isSome :=
  finds_security_iff

theorem finds_performance_iff_signals : (standardOutput config record).Finds .performance ↔
    (firstSignal? record.signalText config.scanner.loopKeywords).isSome ∧
      (firstSignal? record.signalText config.scanner.persistenceKeywords).isSome := by
  rw [finds_performance_iff, CodeScanner.signals]
  split <;> simp [*]

theorem findsIssue_iff_mem : (standardOutput config record).FindsIssue issue ↔
    ∃ keyword, (issue, keyword) ∈ CloudReadiness.issues config.cloud record.signalText := by
  rw [Output.FindsIssue, findingsOf_cloudReadiness, CloudReadiness.scan, CloudReadiness.report]
  constructor
  · rintro ⟨f, hf, htitle⟩
    obtain ⟨⟨found, keyword⟩, hmem, rfl⟩ := List.mem_map.mp hf
    obtain rfl : found = issue := CloudReadiness.Issue.title_injective htitle
    exact ⟨keyword, hmem⟩
  · rintro ⟨keyword, hmem⟩
    exact ⟨_, List.mem_map_of_mem hmem, rfl⟩

theorem findsIssue_iff_signal : (standardOutput config record).FindsIssue issue ↔
    (firstSignal? record.signalText (issue.keywords config.cloud)).isSome :=
  findsIssue_iff_mem.trans CloudReadiness.exists_mem_issues_iff

theorem issues_eq_nil_iff : CloudReadiness.issues config.cloud record.signalText = [] ↔
    ∀ issue, ¬(standardOutput config record).FindsIssue issue := by
  simp only [findsIssue_iff_mem, not_exists, List.eq_nil_iff_forall_not_mem, Prod.forall]

theorem score_eq (config : Config) (record : FeatureRecord) :
    CloudReadiness.score config.cloud record =
      if (standardOutput config record).FindsIssue .statefulSession ∨
          (standardOutput config record).FindsIssue .localAddress then config.cloud.reducedScore
      else config.cloud.readyScore := by
  rw [CloudReadiness.score, CloudReadiness.scoreOf]
  split
  · next hnil =>
    have hnone := issues_eq_nil_iff.mp (List.isEmpty_iff.mp hnil)
    rw [if_neg (not_or.mpr ⟨hnone _, hnone _⟩)]
  · next hsome =>
    rw [if_pos]
    by_contra hnone
    rw [not_or] at hnone
    refine hsome (List.isEmpty_iff.mpr (issues_eq_nil_iff.mpr ?_))
    rintro (_ | _)
    · exact hnone.1
    · exact hnone.2

/-- A record in whose texts keywords stand among characters that are escaped or depend on their
neighbours. -/
def crowded : FeatureRecord :=
  ⟨.python, [⟨"\x0c\"tas\u212AΣ", .function, ["ΑΣsession\\"], 3, 4⟩], [],
    ["import \x1ffor\x0ddatabase"], 1, 2, none⟩

/-- A configuration whose first keywords for queries are not mentioned there. -/
def tasks : Config :=
  { scanner := { sqlKeywords := ["", "nothing", "Task"] } }

theorem signals_iff (config : Config) (record : FeatureRecord) (h : record.parseError = none)
    (hscanner : ∀ keyword ∈ config.scanner.sqlKeywords ++ config.scanner.loopKeywords ++
      config.scanner.persistenceKeywords, Foreign keyword.toList)
    (hcloud : ∀ issue : CloudReadiness.Issue, ∀ keyword ∈ issue.keywords config.cloud,
      Foreign keyword.toList) :
    ((standardOutput config record).Finds .security ↔
        record.MentionsOneOf (config.scanner.sqlKeywords.flatMap forms)) ∧
      ((standardOutput config record).Finds .performance ↔
        record.MentionsOneOf (config.scanner.loopKeywords.flatMap forms) ∧
          record.MentionsOneOf (config.scanner.persistenceKeywords.flatMap forms)) ∧
      ∀ issue, (standardOutput config record).FindsIssue issue ↔
        record.MentionsOneOf ((issue.keywords config.cloud).flatMap forms) := by
  simp only [List.forall_mem_append] at hscanner
  obtain ⟨⟨hquery, hloop⟩, haccess⟩ := hscanner
  rw [finds_security_iff_signal, finds_performance_iff_signals,
    firstSignal?_signalText_iff h hquery, firstSignal?_signalText_iff h hloop,
    firstSignal?_signalText_iff h haccess]
  refine ⟨Iff.rfl, Iff.rfl, fun issue => ?_⟩
  rw [findsIssue_iff_signal, firstSignal?_signalText_iff h (hcloud issue)]

theorem foreign_default :
    (∀ keyword ∈ ({} : Config).scanner.sqlKeywords ++ ({} : Config).scanner.loopKeywords ++
        ({} : Config).scanner.persistenceKeywords, Foreign keyword.toList) ∧
      ∀ issue : CloudReadiness.Issue, ∀ keyword ∈ issue.keywords ({} : Config).cloud,
        Foreign keyword.toList := by
  refine ⟨by decide +kernel, ?_⟩
  rintro (_ | _) <;> decide +kernel

theorem forms_default :
    ({} : Config).scanner.sqlKeywords.flatMap forms = ["sql"] ∧
      ({} : Config).scanner.loopKeywords.flatMap forms = ["for", "\x0cor", "\x0for", "\x1for"] ∧
      ({} : Config).scanner.persistenceKeywords.flatMap forms = ["database", "\x1database"] ∧
      (CloudReadiness.Issue.statefulSession.keywords {}).flatMap forms = ["session"] ∧
      (CloudReadiness.Issue.localAddress.keywords {}).flatMap forms =
        ["localhost", "127.0.0.1", "\x0127.0.0.1", "\x1127.0.0.1", "\x127.0.0.1"] := by
  decide +kernel

/-- A record whose only text escapes to one that looks like a loop keyword. -/
def formFeed : FeatureRecord :=
  ⟨.python, [], [], ["import \x0corders_database"], 1, 2, none⟩

end Chain

end LegacyAudit
