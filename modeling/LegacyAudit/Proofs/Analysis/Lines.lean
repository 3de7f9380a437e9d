import LegacyAudit.Config.Validation
import LegacyAudit.Job.FileAnalysis
import LegacyAudit.Proofs.Text.Utf8

/-!
# Where findings point

Rows count from 0 and the last one may stand on the empty line behind a final line break; findings
count lines from 1. Both stay inside the file.

## Main definitions

- `SyntaxTree.FitsIn` - the nodes of a tree stand where their rows say
- `LineSpan.Within` - the lines of a finding are lines of the file
- `FeatureRecord.Bounded` - all declarations of a record stand inside the file
- `within_of_analyzeFile` - whatever the standard analyzers find points inside the file

## Design notes

A text in memory has less than `memoryBound` bytes, so counting its lines cannot overflow.
-/

namespace LegacyAudit

open LegacyAudit.Text

def memoryBound : Nat :=
  0x8000000000000000

/-- A node covers bytes of the source, and its rows are the numbers of line breaks before its start
and its end. -/
structure Span.FitsIn (source : List UInt8) (span : Span) : Prop where
  start_le : span.startByte ≤ span.endByte
  end_le : span.endByte ≤ source.length
  startRow_eq : span.startRow.toNat = (source.take span.startByte).count 10
  endRow_eq : span.endRow.toNat = (source.take span.endByte).count 10

inductive SyntaxTree.FitsIn (source : List UInt8) : SyntaxTree → Prop
  | node {kind : String} {span : Span} {children : List SyntaxTree} :
    span.FitsIn source → (∀ child ∈ children, child.FitsIn source) →
      FitsIn source (.node kind span children)

/-- The lines are among the first `count`, and a range has at least two of them. -/
def LineSpan.Within (count : UInt64) : LineSpan → Prop
  | line number => 1 ≤ number ∧ number ≤ count
  | range first last => 1 ≤ first ∧ first < last ∧ last ≤ count

/-- The record has a line, and its declarations end on its lines. -/
structure FeatureRecord.Bounded (record : FeatureRecord) : Prop where
  hasLine : 0 < record.linesOfCode
  functions : ∀ f ∈ record.functions, f.startLine ≤ f.endLine ∧ f.endLine < record.linesOfCode
  classes : ∀ c ∈ record.classes, c.startLine ≤ c.endLine ∧ c.endLine < record.linesOfCode

variable {source : List UInt8} {content : String}

/-- A node starts no later than it ends, also in rows, and ends on a row of the source. -/
theorem Span.FitsIn.rows_le {span : Span} (h : span.FitsIn source) :
    span.startRow.toNat ≤ span.endRow.toNat ∧ span.endRow.toNat ≤ source.count 10 := by
  rw [h.startRow_eq, h.endRow_eq]
  constructor
  · exact (List.take_sublist_take_left h.start_le).count_le 10
  · exact (List.take_sublist _ _).count_le 10

theorem SyntaxTree.FitsIn.span {tree : SyntaxTree} (h : tree.FitsIn source) :
    tree.span.FitsIn source := by
  cases h with
  | node hspan _ => exact hspan

theorem SyntaxTree.FitsIn.children {tree : SyntaxTree} (h : tree.FitsIn source) :
    ∀ child ∈ tree.children, child.FitsIn source := by
  cases h with
  | node _ hchildren => exact hchildren

theorem toNat_lineCount (hsize : (encode content).length < memoryBound) :
    (lineCount content).toNat = content.toList.count '\n' + 1 := by
  have hcount : content.toList.count '\n' ≤ (encode content).length := by
    rw [← count_encode]
    exact List.count_le_length
  rw [lineCount, UInt64.toNat_ofNat']
  unfold memoryBound at hsize
  omega

theorem Span.FitsIn.lt_lineCount {span : Span} (h : span.FitsIn (encode content))
    (hsize : (encode content).length < memoryBound) :
    span.startRow ≤ span.endRow ∧ span.endRow < lineCount content := by
  obtain ⟨hle, hend⟩ := h.rows_le
  rw [count_encode] at hend
  refine ⟨hle, ?_⟩
  rw [UInt64.lt_iff_toNat_lt, toNat_lineCount hsize]
  omega

theorem FeatureRecord.bounded_degraded (language : Language)
    (hsize : (encode content).length < memoryBound) : (degraded language content).Bounded where
  hasLine := by
    rw [UInt64.lt_iff_toNat_lt]
    simp [degraded, toNat_lineCount hsize]
  functions := by simp [degraded]
  classes := by simp [degraded]

theorem rows_of_topLevel_function {rules : RuleTable} {tree : SyntaxTree} {f : FunctionFacts}
    (h : topLevel rules source tree = .function f) :
    f.startLine = tree.span.startRow ∧ f.endLine = tree.span.endRow := by
  unfold topLevel at h
  split at h
  · obtain rfl := TopLevel.function.inj h
    exact ⟨rfl, rfl⟩
  · cases h
  · split at h <;> cases h

theorem rows_of_topLevel_classLike {rules : RuleTable} {tree : SyntaxTree} {c : ClassFacts}
    (h : topLevel rules source tree = .classLike c) :
    c.startLine = tree.span.startRow ∧ c.endLine = tree.span.endRow := by
  unfold topLevel at h
  split at h
  · cases h
  · obtain rfl := TopLevel.classLike.inj h
    exact ⟨rfl, rfl⟩
  · split at h <;> cases h

/-- What is extracted from a tree that fits stands on the lines of the text. -/
theorem bounded_recordOfTree {grammar : Grammar} {tree : SyntaxTree}
    (htree : tree.FitsIn (encode content)) (hsize : (encode content).length < memoryBound) :
    (recordOfTree grammar tree content).Bounded where
  hasLine := (FeatureRecord.bounded_degraded grammar.tag hsize).hasLine
  functions := by
    intro f hf
    obtain ⟨child, hchild, hfacts⟩ := List.mem_filterMap.mp hf
    have hrows := (htree.children child hchild).span.lt_lineCount hsize
    split at hfacts
    · next facts htop =>
      obtain rfl := Option.some.inj hfacts
      obtain ⟨hstart, hend⟩ := rows_of_topLevel_function htop
      rwa [hstart, hend]
    · cases hfacts
  classes := by
    intro c hc
    obtain ⟨child, hchild, hfacts⟩ := List.mem_filterMap.mp hc
    have hrows := (htree.children child hchild).span.lt_lineCount hsize
    split at hfacts
    · next facts htop =>
      obtain rfl := Option.some.inj hfacts
      obtain ⟨hstart, hend⟩ := rows_of_topLevel_classLike htop
      rwa [hstart, hend]
    · cases hfacts

/-- Whatever parsing a text leads to, the record stands on the lines of the text. -/
theorem bounded_parseFile {trees : TreeSource} {language : Language}
    (htrees : ∀ tree, trees language (encode content) = .ok tree → tree.FitsIn (encode content))
    (hsize : (encode content).length < memoryBound) :
    (parseFile trees language content).toRecord.Bounded ∧
      (parseFile trees language content).toRecord.linesOfCode = lineCount content := by
  unfold parseFile
  cases hrules : language.rules? with
  | none =>
    simp only [TreeSource.grammar?, hrules, Option.map_none]
    exact ⟨FeatureRecord.bounded_degraded language hsize, rfl⟩
  | some rules =>
    simp only [TreeSource.grammar?, hrules, Option.map_some, parseWith]
    cases htree : trees language (encode content) with
    | error message =>
      have hfailure := FeatureRecord.bounded_degraded language hsize
      exact ⟨⟨hfailure.hasLine, hfailure.functions, hfailure.classes⟩, rfl⟩
    | ok tree => exact ⟨bounded_recordOfTree (htrees tree htree) hsize, rfl⟩

variable {record : FeatureRecord}

theorem LineSpan.within_ofRows {startRow endRow count : UInt64}
    (h : startRow ≤ endRow ∧ endRow < count) : (ofRows startRow endRow).Within count := by
  obtain ⟨hle, hlt⟩ := h
  rw [UInt64.le_iff_toNat_le] at hle
  rw [UInt64.lt_iff_toNat_lt] at hlt
  have hcount := count.toNat_lt
  have hstart : (startRow + 1).toNat = startRow.toNat + 1 := by
    rw [UInt64.toNat_add, UInt64.toNat_one]
    omega
  have hend : (endRow + 1).toNat = endRow.toNat + 1 := by
    rw [UInt64.toNat_add, UInt64.toNat_one]
    omega
  unfold ofRows
  split
  · simp only [Within, UInt64.le_iff_toNat_le, UInt64.toNat_one, hstart]
    omega
  · next hne =>
    rw [← UInt64.toNat_inj] at hne
    simp only [Within, UInt64.le_iff_toNat_le, UInt64.lt_iff_toNat_lt, UInt64.toNat_one, hstart,
      hend]
    omega

theorem FeatureRecord.Bounded.locate (h : record.Bounded) (keyword : String) :
    (locate record keyword).Within record.linesOfCode := by
  unfold LegacyAudit.locate
  split
  · next f hf => exact LineSpan.within_ofRows (h.functions f (List.mem_of_find?_eq_some hf))
  · split
    · next c hc => exact LineSpan.within_ofRows (h.classes c (List.mem_of_find?_eq_some hc))
    · have hline := h.hasLine
      rw [UInt64.lt_iff_toNat_lt] at hline
      simp only [LineSpan.Within, UInt64.le_iff_toNat_le, UInt64.toNat_one]
      simp at hline
      omega

/-- The code scanner points inside the file: a large file has more lines than a threshold that is
not zero. -/
theorem CodeScanner.within_of_mem_scan {config : ScannerConfig} (h : record.Bounded)
    (hlarge : config.largeFileLines ≠ 0) :
    ∀ finding ∈ (scan config record).findings, finding.lines.Within record.linesOfCode := by
  intro finding hfinding
  simp only [scan, report, List.mem_append, Option.mem_toList, Option.map_eq_some_iff] at hfinding
  rcases hfinding with (⟨keyword, _, rfl⟩ | ⟨keyword, _, rfl⟩) | hfinding
  · exact h.locate keyword
  · exact h.locate keyword
  · split at hfinding
    · next hlines =>
      obtain rfl := List.mem_singleton.mp hfinding
      simp only [signals, decide_eq_true_eq, UInt64.lt_iff_toNat_lt] at hlines
      rw [ne_eq, ← UInt64.toNat_inj, UInt64.toNat_zero] at hlarge
      simp only [largeFileFinding, LineSpan.Within, UInt64.le_iff_toNat_le, UInt64.lt_iff_toNat_lt,
        UInt64.toNat_one]
      omega
    · cases hfinding

theorem CloudReadiness.within_of_mem_scan {config : CloudConfig} (h : record.Bounded) :
    ∀ finding ∈ (scan config record).findings, finding.lines.Within record.linesOfCode := by
  intro finding hfinding
  obtain ⟨⟨issue, keyword⟩, _, rfl⟩ := List.mem_map.mp hfinding
  exact h.locate keyword

theorem Config.largeFileLines_ne_zero {config : Config} (h : config.firstFault? = none) :
    config.scanner.largeFileLines ≠ 0 := by
  intro hzero
  obtain ⟨hnumbers, _⟩ := Option.or_eq_none_iff.mp h
  rw [numberFault?, if_pos hzero] at hnumbers
  split_ifs at hnumbers

/-- The standard chain never breaks down, and all it finds points inside the file. -/
theorem Chain.within_of_run_standard {config : Config} (h : record.Bounded)
    (hvalid : config.firstFault? = none) :
    ∃ result, (Chain.standard config).run? record = some result ∧
      ∀ finding ∈ result.output.findings, finding.lines.Within record.linesOfCode := by
  refine ⟨_, rfl, ?_⟩
  intro finding hfinding
  change finding ∈ (CodeScanner.scan config.scanner record).findings ++
    ([] ++ ((CloudReadiness.scan config.cloud record).findings ++ [])) at hfinding
  simp only [List.nil_append, List.append_nil, List.mem_append] at hfinding
  rcases hfinding with hscanner | hcloud
  · exact CodeScanner.within_of_mem_scan h (Config.largeFileLines_ne_zero hvalid) _ hscanner
  · exact CloudReadiness.within_of_mem_scan h _ hcloud

/-- A valid configuration analyzes every file that holds text, whatever its tree, and everything
that is found points inside the file. So do the functions and classes. -/
theorem within_of_analyzeFile {trees : TreeSource} {config : Config} {file : SourceFile}
    (hvalid : config.firstFault? = none) (htext : file.text = .ok content)
    (hsize : (encode content).length < memoryBound)
    (htrees : ∀ tree, trees file.language (encode content) = .ok tree →
      tree.FitsIn (encode content)) :
    ∃ analysis, analyzeFile trees (.standard config) file = .analyzed analysis ∧
      analysis.record.linesOfCode = lineCount content ∧
      (lineCount content).toNat = content.toList.count '\n' + 1 ∧
      (∀ finding ∈ analysis.output.findings, finding.lines.Within (lineCount content)) ∧
      (∀ f ∈ analysis.record.functions,
        f.startLine ≤ f.endLine ∧ f.endLine < lineCount content) ∧
      ∀ c ∈ analysis.record.classes, c.startLine ≤ c.endLine ∧ c.endLine < lineCount content := by
  obtain ⟨hbounded, hlines⟩ := bounded_parseFile htrees hsize
  rw [analyzeFile, htext]
  dsimp only
  generalize (parseFile trees file.language content).toRecord = record at hbounded hlines
  obtain ⟨result, hresult, hfindings⟩ :
      ∃ result, chainResult? (.standard config) record = some result ∧
        ∀ finding ∈ result.output.findings, finding.lines.Within record.linesOfCode := by
    unfold chainResult?
    split
    · exact ⟨{}, rfl, by simp⟩
    · exact Chain.within_of_run_standard hbounded hvalid
  rw [hresult]
  refine ⟨_, rfl, hlines, toNat_lineCount hsize, ?_, ?_, ?_⟩
  · exact hlines ▸ hfindings
  · exact hlines ▸ hbounded.functions
  · exact hlines ▸ hbounded.classes

/-- A function that ends on the empty line behind the last line break. -/
def sampleText : String := "def sql():\n  pass\n"

def sampleTree : SyntaxTree :=
  .node "module" ⟨0, 18, 0, 2⟩
    [.node "function_definition" ⟨0, 18, 0, 2⟩ [.node "identifier" ⟨4, 7, 0, 0⟩ []]]

theorem fitsIn_sampleTree : sampleTree.FitsIn (encode sampleText) := by
  have hleaf : (SyntaxTree.node "identifier" ⟨4, 7, 0, 0⟩ []).FitsIn (encode sampleText) :=
    .node ⟨by decide, by decide +kernel, by decide +kernel, by decide +kernel⟩ (by simp)
  have hwhole : Span.FitsIn (encode sampleText) ⟨0, 18, 0, 2⟩ :=
    ⟨by decide, by decide +kernel, by decide +kernel, by decide +kernel⟩
  refine .node hwhole ?_
  simp only [List.forall_mem_singleton]
  refine .node hwhole ?_
  simp only [List.forall_mem_singleton]
  exact hleaf

/-- The finding about the sample ends on its third line, which is empty. -/
theorem within_of_analyzeFile_sample :
    ∃ analysis, analyzeFile (fun _ _ => .ok sampleTree) (.standard {})
        ⟨"a.py", encode sampleText⟩ = .analyzed analysis ∧
      lineCount sampleText = 3 ∧ analysis.output.findings.map (·.lines) = [.range 1 3] ∧
      ∀ finding ∈ analysis.output.findings, finding.lines.Within 3 := by
  have htext : SourceFile.text ⟨"a.py", encode sampleText⟩ = .ok sampleText := by
    rw [SourceFile.text, decode_encode]
  have hvalid : Config.firstFault? {} = none := by decide +kernel
  have htrees : ∀ tree : SyntaxTree, Except.ok sampleTree = (.ok tree : Except String SyntaxTree) →
      tree.FitsIn (encode sampleText) := by
    intro tree htree
    obtain rfl := Except.ok.inj htree
    exact fitsIn_sampleTree
  obtain ⟨analysis, hanalysis, _, _, hfindings, _⟩ :=
    @within_of_analyzeFile _ (fun _ _ => .ok sampleTree) _ _ hvalid htext (by decide +kernel) htrees
  have hcount : lineCount sampleText = 3 := by decide +kernel
  refine ⟨analysis, hanalysis, hcount, ?_, hcount ▸ hfindings⟩
  have hlines : (analyzeFile (fun _ _ => .ok sampleTree) (.standard {})
      ⟨"a.py", encode sampleText⟩).analysis?.map
        (fun a => a.output.findings.map (·.lines)) = some [.range 1 3] := by decide +kernel
  rw [hanalysis] at hlines
  exact Option.some.inj hlines

end LegacyAudit
