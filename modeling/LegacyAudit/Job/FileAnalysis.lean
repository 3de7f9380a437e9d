import LegacyAudit.Analyzer.Chain
import LegacyAudit.Grammar
import LegacyAudit.Job.Basic

/-!
# Analysing a file

A file is decoded, parsed, summed up in a record and shown to the analyzers. Content that is no text
ends the analysis of the file, and so does an analyzer that breaks down. A record with a parse error
is not shown to the analyzers.

## Main definitions

- `FileAnalysis` - everything that is derived from a file
- `FileOutcome` - an analysis or the reason why there is none
- `analyzeFile` - from a file to its outcome
-/

namespace LegacyAudit

structure FileAnalysis where
  filename : String
  record : FeatureRecord
  output : Output
  failures : List AnalyzerFailure
  deriving DecidableEq, Repr

inductive FileOutcome where
  | analyzed (analysis : FileAnalysis)
  /-- The content is no text. -/
  | undecodable (file : UndecodableFile)
  /-- An analyzer broke down. -/
  | crashed

def FileOutcome.analysis? : FileOutcome → Option FileAnalysis
  | analyzed analysis => some analysis
  | _ => none

/-- What the analyzers say about a record; nothing about one with a parse error. -/
def chainResult? (chain : Chain) (record : FeatureRecord) : Option ChainResult :=
  if record.parseError.isSome then some {} else chain.run? record

def analyzeFile (trees : TreeSource) (chain : Chain) (file : SourceFile) : FileOutcome :=
  match file.text with
  | .error e => .undecodable e
  | .ok content =>
    let record := (parseFile trees file.language content).toRecord
    match chainResult? chain record with
    | some result => .analyzed ⟨file.filename, record, result.output, result.failures⟩
    | none => .crashed

end LegacyAudit
