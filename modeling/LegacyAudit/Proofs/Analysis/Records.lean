import LegacyAudit.Proofs.Analysis.Chains
import LegacyAudit.Proofs.Analysis.Lines
import LegacyAudit.Proofs.Job.Completion
import LegacyAudit.Proofs.Syntax.Traversal

/-!
# The three ways to a record

A text has a tree, or its grammar fails on it, or there is no grammar for it. All three end in a
record, and the record tells which way it was. Analysing a file goes by the record alone: it is
shown to the analyzers unless it carries a parse error, and a file with a record has been analysed
even if nothing was said about it.

## Main definitions

- `FeatureRecord.SumsUp` - the record tells what became of a text
- `FeatureRecord.Decides` - what becomes of a file goes by the record
- `SourceFile.IsText` - the content of a file is text
- `Chain.Calm` - no analyzer of the chain ever breaks down
- `records_agree` - every record sums up its text and decides what becomes of its file
-/

namespace LegacyAudit

open LegacyAudit.Text

/-- What a grammar makes of a text, if there is a grammar. -/
def parseResult? (grammar? : Option Grammar) (content : String) :
    Option (Except String SyntaxTree) :=
  grammar?.map fun grammar => grammar.parse (encode content)

/-- The text is in memory, and its tree, if it has one, has few enough decisions to be counted. -/
structure Countable (grammar? : Option Grammar) (content : String) : Prop where
  size : (encode content).length < memoryBound
  decisions : ∀ grammar ∈ grammar?, ∀ tree, grammar.parse (encode content) = .ok tree →
    tree.decisionCount grammar.rules.decisions < 2 ^ 32 - 1

/-- The record tells what became of a text that was asked for in a language. -/
structure FeatureRecord.SumsUp (record : FeatureRecord) (grammar? : Option Grammar)
    (language : Language) (content : String) : Prop where
  linesOfCode : record.linesOfCode.toNat = 1 + content.toList.count '\n'
  language : record.language = (grammar?.map (·.tag)).getD language
  parseError : ∀ message, record.parseError = some message ↔
    parseResult? grammar? content = some (.error message)
  complexity : 1 ≤ record.complexity ↔ ∃ tree, parseResult? grammar? content = some (.ok tree)
  structureless : record.complexity = 0 →
    record.functions = [] ∧ record.classes = [] ∧ record.imports = []

/-- What becomes of a file goes by the record: the chain is shown the record if it carries no parse
error, and makes no difference if it carries one. -/
structure FeatureRecord.Decides (record : FeatureRecord) (trees : TreeSource) (file : SourceFile) :
    Prop where
  shown : record.parseError = none → ∀ chain, (analyzeFile trees chain file).analysis? =
    (chain.run? record).map fun result =>
      ⟨file.filename, record, result.output, result.failures⟩
  passedBy : record.parseError ≠ none → ∀ chain,
    (analyzeFile trees chain file).analysis? = some ⟨file.filename, record, {}, []⟩
  /-- A chain can break down on the file only if it is shown the record. -/
  noticed : (∃ chain, analyzeFile trees chain file = .crashed) ↔ record.parseError = none

def SourceFile.IsText (file : SourceFile) : Prop :=
  ∃ content, encode content = file.content

/-- No analyzer of the chain ever breaks down. -/
def Chain.Calm (chain : Chain) : Prop :=
  ∀ analyzer ∈ chain, ∀ record, analyzer.Answers record

section

variable {grammar : Grammar} {language : Language} {content : String}

theorem Countable.linesOfCode {grammar? : Option Grammar} (h : Countable grammar? content) :
    (lineCount content).toNat = 1 + content.toList.count '\n' := by
  rw [toNat_lineCount h.size, Nat.add_comm]

theorem sumsUp_degraded (h : Countable none content) :
    (FeatureRecord.degraded language content).SumsUp none language content where
  linesOfCode := h.linesOfCode
  language := rfl
  parseError := by simp [FeatureRecord.degraded, parseResult?]
  complexity := by simp [FeatureRecord.degraded, parseResult?]
  structureless := fun _ => ⟨rfl, rfl, rfl⟩

theorem sumsUp_parseFailure {message : String} (h : Countable (some grammar) content)
    (hparse : grammar.parse (encode content) = .error message) :
    (FeatureRecord.parseFailure grammar.tag content message).SumsUp (some grammar) language
      content where
  linesOfCode := h.linesOfCode
  language := rfl
  parseError := by simp [FeatureRecord.parseFailure, parseResult?, hparse]
  complexity := by simp [FeatureRecord.parseFailure, FeatureRecord.degraded, parseResult?, hparse]
  structureless := fun _ => ⟨rfl, rfl, rfl⟩

theorem one_le_complexity {tree : SyntaxTree} {decisions : KindTable DecisionKind}
    (h : tree.decisionCount decisions < 2 ^ 32 - 1) : 1 ≤ complexity tree decisions := by
  rw [complexity_eq, UInt32.le_iff_toNat_le, UInt32.toNat_add, UInt32.toNat_one,
    UInt32.toNat_ofNat']
  omega

theorem sumsUp_recordOfTree {tree : SyntaxTree} (h : Countable (some grammar) content)
    (hparse : grammar.parse (encode content) = .ok tree) :
    (recordOfTree grammar tree content).SumsUp (some grammar) language content := by
  have hcomplexity : 1 ≤ (recordOfTree grammar tree content).complexity :=
    one_le_complexity (h.decisions grammar rfl tree hparse)
  constructor
  case linesOfCode => exact h.linesOfCode
  case language => rfl
  case parseError => simp [recordOfTree, parseResult?, hparse]
  case complexity => simp [hcomplexity, parseResult?, hparse]
  case structureless =>
    intro hzero
    rw [hzero] at hcomplexity
    exact absurd hcomplexity (by decide)

theorem sumsUp_parseWith (h : Countable (some grammar) content) :
    (parseWith grammar content).toRecord.SumsUp (some grammar) language content := by
  unfold parseWith
  cases hparse : grammar.parse (encode content) with
  | ok tree => exact sumsUp_recordOfTree h hparse
  | error message => exact sumsUp_parseFailure h hparse

theorem sumsUp_parseFile {trees : TreeSource} (h : Countable (trees.grammar? language) content) :
    (parseFile trees language content).toRecord.SumsUp (trees.grammar? language) language
      content := by
  unfold parseFile
  cases hgrammar : trees.grammar? language with
  | none => exact sumsUp_degraded (hgrammar ▸ h)
  | some grammar => exact sumsUp_parseWith (hgrammar ▸ h)

end

section

variable {trees : TreeSource} {chain : Chain} {file : SourceFile} {content : String}

theorem SourceFile.text_eq_ok_iff : file.text = .ok content ↔ encode content = file.content := by
  rw [← decode_eq_ok_iff, text]
  cases decode file.content <;> simp

theorem SourceFile.isText_iff_isOk : file.IsText ↔ file.text.isOk = true := by
  simp only [IsText, ← text_eq_ok_iff]
  cases file.text <;> simp [Except.isOk, Except.toBool]

instance (file : SourceFile) : Decidable file.IsText :=
  decidable_of_iff _ SourceFile.isText_iff_isOk.symm

theorem analysis?_analyzeFile (h : encode content = file.content) :
    (analyzeFile trees chain file).analysis? =
      (chainResult? chain (parseFile trees file.language content).toRecord).map fun result =>
        ⟨file.filename, (parseFile trees file.language content).toRecord, result.output,
          result.failures⟩ := by
  rw [analyzeFile, SourceFile.text_eq_ok_iff.mpr h]
  dsimp only
  split
  · next result hresult => simp [hresult, FileOutcome.analysis?]
  · next hresult => simp [hresult, FileOutcome.analysis?]

theorem analyzeFile_undecodable_iff :
    (∃ e, analyzeFile trees chain file = .undecodable e) ↔ ¬file.IsText := by
  rw [SourceFile.isText_iff_isOk, analyzeFile]
  cases file.text with
  | error e => simp [Except.isOk, Except.toBool]
  | ok content =>
    simp only [Except.isOk, Except.toBool, not_true_eq_false, iff_false, not_exists]
    intro e
    split <;> simp

/-- An analyzer that breaks down on every record. -/
def Analyzer.alarm : Analyzer where
  name := "alarm"
  analyze _ := .crash

theorem decides_parseFile (h : encode content = file.content) :
    (parseFile trees file.language content).toRecord.Decides trees file where
  shown hnone chain := by
    rw [analysis?_analyzeFile h, chainResult?, hnone]
    rfl
  passedBy hfailure chain := by
    rw [analysis?_analyzeFile h, chainResult?, if_pos (Option.isSome_iff_ne_none.mpr hfailure)]
    rfl
  noticed := by
    simp only [analyzeFile, SourceFile.text_eq_ok_iff.mpr h, chainResult?]
    constructor
    · rintro ⟨chain, hcrash⟩
      by_contra hfailure
      simp [Option.isSome_iff_ne_none.mpr hfailure] at hcrash
    · intro hnone
      refine ⟨[.alarm], ?_⟩
      rw [hnone]
      rfl

theorem Chain.Calm.isSome_chainResult? (h : chain.Calm) (record : FeatureRecord) :
    (chainResult? chain record).isSome := by
  unfold chainResult?
  split
  · rfl
  · rw [Chain.run?_eq_some_iff.mpr ⟨fun analyzer hmem => h analyzer hmem record, rfl⟩]
    rfl

theorem Chain.calm_standard (config : Config) : (standard config).Calm := by
  simp only [Calm, standard, List.forall_mem_cons, Analyzer.Answers]
  refine ⟨?_, ?_, ?_, ?_⟩ <;> rintro _ ⟨⟩

theorem isAnalyzed_analyzeFile (h : chain.Calm) :
    (analyzeFile trees chain file).isAnalyzed = decide file.IsText := by
  by_cases htext : file.IsText
  · obtain ⟨content, hcontent⟩ := htext
    rw [FileOutcome.isAnalyzed, analysis?_analyzeFile hcontent, Option.isSome_map,
      h.isSome_chainResult?]
    exact (decide_eq_true ⟨content, hcontent⟩).symm
  · have hundecodable : ∃ e, analyzeFile trees chain file = .undecodable e :=
      analyzeFile_undecodable_iff.mpr htext
    obtain ⟨e, he⟩ := hundecodable
    rw [he, decide_eq_false htext]
    rfl

/-- Every record sums up its text, with or without a grammar, and decides what becomes of its file.
Only a file that is no text has no analysis, and a job counts all the others. -/
theorem records_agree (trees : TreeSource) :
    (∀ grammar language content, Countable (some grammar) content →
      (parseWith grammar content).toRecord.SumsUp (some grammar) language content) ∧
    (∀ language content, Countable (trees.grammar? language) content →
      (parseFile trees language content).toRecord.SumsUp (trees.grammar? language) language
        content) ∧
    (∀ file content, encode content = file.content →
      (parseFile trees file.language content).toRecord.Decides trees file) ∧
    (∀ chain file, (∃ e, analyzeFile trees chain file = .undecodable e) ↔ ¬file.IsText) ∧
    ∀ chain : Chain, chain.Calm →
      (∀ file, (analyzeFile trees chain file).isAnalyzed = decide file.IsText) ∧
      ∀ {σ : Type} (storage : Storage σ) (store : σ → Store), storage.Faithful store →
        ∀ clock id metadata files s, ∃ final job,
          submit storage trees chain clock id metadata files s = (.ran .finished, final) ∧
          (store final).getJob? id = some job ∧
          job.summary.filesAnalyzed = files.countP (·.IsText) := by
  refine ⟨fun _ _ _ => sumsUp_parseWith, fun _ _ => sumsUp_parseFile,
    fun _ _ => decides_parseFile, fun _ _ => analyzeFile_undecodable_iff, fun chain hcalm =>
    ⟨fun _ => isAnalyzed_analyzeFile hcalm, ?_⟩⟩
  intro σ storage store hfaithful clock id metadata files s
  obtain ⟨final, job, summary, hsubmit, hjob, hcompletion⟩ :=
    hfaithful.submit_completes trees chain clock id metadata files s
  refine ⟨final, job, hsubmit, hjob, ?_⟩
  rw [hcompletion.filesAnalyzed, List.countP_map]
  refine List.countP_congr fun file _ => ?_
  rw [Function.comp_apply, isAnalyzed_analyzeFile hcalm]

/-- Three ways to a record, and a job of two files on which the parser fails or that are no text:
the first one counts though nothing is said about it. -/
theorem records_agree_sample :
    (recordOfTree ⟨.python, .python, fun _ => .ok sampleTree⟩ sampleTree sampleText).SumsUp
      (some ⟨.python, .python, fun _ => .ok sampleTree⟩) .unknown sampleText ∧
    (FeatureRecord.degraded .cobol "A\n").SumsUp none .cobol "A\n" ∧
    (∀ chain, (analyzeFile (fun _ _ => .error "no tree") chain ⟨"a.py", [120]⟩).analysis? =
      some ⟨"a.py", .parseFailure .python "x" "no tree", {}, []⟩) ∧
    ∃ final job, submit (Store.storage default) (fun _ _ => .error "no tree") (.standard {})
        (default : Timestamp) ⟨7⟩ ⟨"demo", none, none, .standard⟩ [⟨"a.py", [120]⟩, ⟨"b.py", [255]⟩]
        {} = (.ran .finished, final) ∧
      final.getJob? ⟨7⟩ = some job ∧ job.summary.filesAnalyzed = 1 := by
  obtain ⟨hwith, hfile, hdecides, _, hjobs⟩ := records_agree fun _ _ => .error "no tree"
  have htree : Countable (some ⟨.python, .python, fun _ => .ok sampleTree⟩) sampleText := by
    refine ⟨by decide +kernel, ?_⟩
    rintro _ ⟨⟩ _ ⟨⟩
    decide +kernel
  have hnone : Countable none "A\n" := ⟨by decide +kernel, nofun⟩
  have htext : encode "x" = (SourceFile.mk "a.py" [120]).content := by decide +kernel
  have hlanguage : (SourceFile.mk "a.py" [120]).language = .python := by decide +kernel
  refine ⟨hwith _ _ _ htree, hfile .cobol _ hnone, fun chain => ?_, ?_⟩
  · have hrecord := hdecides _ "x" htext
    rw [hlanguage] at hrecord
    exact hrecord.passedBy nofun chain
  · obtain ⟨final, job, hsubmit, hjob, hcount⟩ := (hjobs _ (Chain.calm_standard {})).2
      (Store.storage default) id (Store.storage_faithful default) (fun _ => default) ⟨7⟩
      ⟨"demo", none, none, .standard⟩ [⟨"a.py", [120]⟩, ⟨"b.py", [255]⟩] {}
    exact ⟨final, job, hsubmit, hjob, hcount.trans (by decide +kernel)⟩

end

end LegacyAudit
