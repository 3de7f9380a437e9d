import LegacyAudit.Job.FileAnalysis
import LegacyAudit.Proofs.Analysis.Lines
import LegacyAudit.Proofs.Analysis.Signals

/-!
# Files that cannot be parsed

Of a file in a language without a grammar only the lines are counted. Nothing else of its content is
looked at, so contents with as many line breaks are not told apart. The text of such a record is
made of keys, a language tag and a number, and shows none of the built-in keywords.

## Main definitions

- `FindingDraft.ofLines`, `Output.ofLines` - what is said where only the lines are known
- `signals_of_texts_eq_nil` - a record without texts shows no keyword
- `standardOutput_of_texts_eq_nil` - only its lines lead to anything
- `analyzeFile_unparsed` - what becomes of a file in a language without a grammar
-/

namespace LegacyAudit

open LegacyAudit.Text

/-- The built-in finding about a file with many lines. -/
def FindingDraft.ofLines (lines : UInt64) : FindingDraft where
  kind := .maintainability
  severity := .medium
  title := "Large file size may affect maintainability"
  description := "File has " ++ decimal lines.toNat ++ " lines, above the 100 line threshold"
  lines := .range 1 lines
  codeSnippet := none
  suggestedFix := none
  confidence := 80

/-- The built-in advice about a file in which nothing stands in the way. -/
def RecommendationDraft.ofReady : RecommendationDraft where
  kind := .cloudMigration
  priority := .low
  title := "Adopt cloud-native patterns"
  description := "Cloud readiness score: 75/100"
  estimatedEffort := "4-8 weeks"
  benefits := ["Elastic scaling", "Simpler deployment"]
  implementationSteps := ["12-Factor App", "Microservices", "Containerization"]

/-- What the standard analyzers say with the built-in configuration about a file of which only the
lines are known. -/
def Output.ofLines (lines : UInt64) : Output where
  findings := if 100 < lines then [.ofLines lines] else []
  recommendations :=
    (if 100 < lines then [CodeScanner.refactorLargeFiles] else []) ++ [.ofReady]
  dependencies := []

section

variable {language : Language} {content content' : String}

theorem Language.rules?_eq_none_iff :
    language.rules? = none ↔ language = .unknown ∨ language = .cobol := by
  cases language <;> simp [rules?]

theorem toRecord_parseFile_of_no_rules (trees : TreeSource) (h : language.rules? = none) :
    (parseFile trees language content).toRecord = .degraded language content := by
  rw [parseFile, TreeSource.grammar?, h]
  rfl

theorem lineCount_congr (h : content.toList.count '\n' = content'.toList.count '\n') :
    lineCount content = lineCount content' := by
  rw [lineCount, h, lineCount]

/-- Without a grammar the number of line breaks is all that is known of a text. -/
theorem FeatureRecord.degraded_congr (language : Language)
    (h : content.toList.count '\n' = content'.toList.count '\n') :
    degraded language content = degraded language content' := by
  rw [degraded, lineCount_congr h, degraded]

end

section

variable {record : FeatureRecord}

theorem firstSignal?_of_texts_eq_nil (keywords : List String) (htexts : record.texts = [])
    (h : record.parseError = none) (hkeywords : ∀ keyword ∈ keywords, Foreign keyword.toList) :
    firstSignal? record.signalText keywords = none := by
  rw [← Option.not_isSome_iff_eq_none, firstSignal?_signalText_iff h hkeywords]
  rintro ⟨form, _, text, htext, _⟩
  rw [htexts] at htext
  cases htext

/-- The built-in analyzers see nothing but the lines of a record without texts. -/
theorem signals_of_texts_eq_nil (htexts : record.texts = []) (h : record.parseError = none) :
    CodeScanner.signals {} record record.signalText = ⟨none, none, 100 < record.linesOfCode⟩ ∧
      CloudReadiness.issues {} record.signalText = [] := by
  obtain ⟨hscanner, hcloud⟩ := Chain.foreign_default
  simp only [List.forall_mem_append] at hscanner
  obtain ⟨⟨hquery, hloop⟩, _⟩ := hscanner
  have hsilent := fun keywords => firstSignal?_of_texts_eq_nil keywords htexts h
  constructor
  · rw [CodeScanner.signals, hsilent _ hquery, hsilent _ hloop]
    rfl
  · have hsession : firstSignal? record.signalText ({} : CloudConfig).sessionKeywords = none :=
      hsilent _ (hcloud .statefulSession)
    have haddress : firstSignal? record.signalText ({} : CloudConfig).localNetworkLiterals = none :=
      hsilent _ (hcloud .localAddress)
    rw [CloudReadiness.issues, hsession, haddress]
    rfl

theorem largeFileFinding_default (record : FeatureRecord) :
    CodeScanner.largeFileFinding {} record = .ofLines record.linesOfCode := by
  have hthreshold : " lines, above the " ++ (decimal (100 : UInt64).toNat ++ " line threshold") =
      " lines, above the 100 line threshold" := by decide +kernel
  simp only [CodeScanner.largeFileFinding, FindingDraft.ofLines, String.append_assoc, hthreshold]

theorem adoptPatterns_default : CloudReadiness.adoptPatterns {} [] = .ofReady := by
  decide +kernel

/-- With the built-in configuration only the lines of a record without texts lead to anything. -/
theorem standardOutput_of_texts_eq_nil (htexts : record.texts = []) (h : record.parseError = none) :
    Chain.standardOutput {} record = .ofLines record.linesOfCode := by
  obtain ⟨hsignals, hissues⟩ := signals_of_texts_eq_nil htexts h
  have himports : record.imports = [] := (List.append_eq_nil_iff.mp htexts).2
  have hscanner : CodeScanner.scan {} record =
      CodeScanner.report {} record ⟨none, none, 100 < record.linesOfCode⟩ := by
    rw [CodeScanner.scan, hsignals]
  have hmapper : DependencyMapper.scan {} record = {} := by
    rw [DependencyMapper.scan, himports]
    rfl
  have hcloud : CloudReadiness.scan {} record = CloudReadiness.report {} record [] := by
    rw [CloudReadiness.scan, hissues]
  change CodeScanner.scan {} record ++ DependencyMapper.scan {} record ++
    CloudReadiness.scan {} record = _
  rw [hscanner, hmapper, hcloud]
  change Output.append (Output.append _ _) _ = _
  simp [Output.append, Output.ofLines, CodeScanner.report, CloudReadiness.report,
    largeFileFinding_default, adoptPatterns_default]

end

section

variable {filename : String} {bytes : List UInt8} {content : String}

/-- A file in a language without a grammar is always analysed, and the chain is shown a record that
holds the lines only. -/
theorem analyzeFile_of_no_rules (trees : TreeSource) (config : Config)
    (hlanguage : (Language.detect filename).rules? = none) (hbytes : encode content = bytes) :
    analyzeFile trees (.standard config) ⟨filename, bytes⟩ =
      .analyzed ⟨filename, .degraded (.detect filename) content,
        Chain.standardOutput config (.degraded (.detect filename) content), []⟩ := by
  have htext : SourceFile.text ⟨filename, bytes⟩ = .ok content := by
    rw [SourceFile.text, decode_eq_ok_iff.mpr hbytes]
  rw [analyzeFile, htext]
  simp only [SourceFile.language, toRecord_parseFile_of_no_rules trees hlanguage, chainResult?,
    FeatureRecord.degraded, Option.isSome_none, Bool.false_eq_true, if_false, Chain.run_standard]

/-- A file in a language without a grammar is always analysed, whatever the configuration. Another
content with as many line breaks leads to the same, whatever parsers there are. With the built-in
configuration nothing is said but what the number of lines calls for. -/
theorem analyzeFile_unparsed (config : Config)
    (hlanguage : Language.detect filename = .unknown ∨ Language.detect filename = .cobol)
    (hbytes : encode content = bytes) :
    (∀ trees, ∃ output, analyzeFile trees (.standard config) ⟨filename, bytes⟩ =
      .analyzed ⟨filename, ⟨.detect filename, [], [], [], 0, lineCount content, none⟩, output,
        []⟩) ∧
    (∀ trees trees' content', content'.toList.count '\n' = content.toList.count '\n' →
      analyzeFile trees (.standard config) ⟨filename, encode content'⟩ =
        analyzeFile trees' (.standard config) ⟨filename, bytes⟩) ∧
    (∀ trees, analyzeFile trees (.standard {}) ⟨filename, bytes⟩ =
      .analyzed ⟨filename, ⟨.detect filename, [], [], [], 0, lineCount content, none⟩,
        .ofLines (lineCount content), []⟩) ∧
    CloudReadiness.score {} ⟨.detect filename, [], [], [], 0, lineCount content, none⟩ = 75 ∧
    (bytes.length < memoryBound →
      (lineCount content).toNat = content.toList.count '\n' + 1) := by
  have hrules := Language.rules?_eq_none_iff.mpr hlanguage
  refine ⟨fun trees => ⟨_, analyzeFile_of_no_rules trees config hrules hbytes⟩, ?_, ?_, ?_, ?_⟩
  · intro trees trees' content' hcount
    rw [analyzeFile_of_no_rules trees config hrules rfl,
      analyzeFile_of_no_rules trees' config hrules hbytes, FeatureRecord.degraded_congr _ hcount]
  · intro trees
    rw [analyzeFile_of_no_rules trees {} hrules hbytes, standardOutput_of_texts_eq_nil rfl rfl]
    rfl
  · rw [CloudReadiness.score, (signals_of_texts_eq_nil rfl rfl).2]
    rfl
  · intro hsize
    exact toNat_lineCount (hbytes ▸ hsize)

/-- A text full of keywords in a file without a grammar says no more than empty lines do. -/
theorem analyzeFile_unparsed_keywords :
    (∀ trees, analyzeFile trees (.standard {}) ⟨"notes.xyz", encode "sql for database\nsession"⟩ =
      .analyzed ⟨"notes.xyz", ⟨.unknown, [], [], [], 0, 2, none⟩, .ofLines 2, []⟩) ∧
    (∀ trees, analyzeFile trees (.standard {}) ⟨"notes.xyz", encode "\n"⟩ =
      analyzeFile trees (.standard {}) ⟨"notes.xyz", encode "sql for database\nsession"⟩) ∧
    Output.findings (.ofLines 2) = [] ∧ (Output.recommendations (.ofLines 2)).length = 1 := by
  have hlanguage : Language.detect "notes.xyz" = .unknown := by decide +kernel
  have hcount : lineCount "sql for database\nsession" = 2 := by decide +kernel
  have hbytes : encode "sql for database\nsession" = encode "sql for database\nsession" := rfl
  obtain ⟨_, hsame, houtput, _⟩ := analyzeFile_unparsed {} (Or.inl hlanguage) hbytes
  rw [hlanguage, hcount] at houtput
  exact ⟨houtput, fun trees => hsame trees trees "\n" (by decide +kernel), by decide, by decide⟩

end

end LegacyAudit
