import LegacyAudit.Analyzer.CloudReadiness
import LegacyAudit.Analyzer.CodeScanner
import LegacyAudit.Analyzer.DependencyMapper

/-!
# Chains of analyzers

A chain shows a record to its analyzers one after the other and collects what they say. One that
gives up is listed with its message and contributes nothing else.

## Main definitions

- `Chain` - the analyzers in order; `Chain.standard` are the built-in ones
- `ChainResult` - the joined outputs and the failures, joined with `++`
- `Chain.run?` - runs a chain; `none` if an analyzer breaks down
-/

namespace LegacyAudit

structure AnalyzerFailure where
  analyzer : String
  message : String
  deriving DecidableEq, Repr

/-- What the analyzers of a chain said about a record. -/
structure ChainResult where
  output : Output := {}
  failures : List AnalyzerFailure := []
  deriving DecidableEq, Repr, Inhabited

/-- Joins two results, the first one in front. -/
def ChainResult.append (a b : ChainResult) : ChainResult where
  output := a.output ++ b.output
  failures := a.failures ++ b.failures

instance : Append ChainResult := ⟨ChainResult.append⟩

/-- Analyzers in the order in which they run. -/
abbrev Chain := List Analyzer

def Analyzer.contribution? (analyzer : Analyzer) (record : FeatureRecord) : Option ChainResult :=
  match analyzer.analyze record with
  | .output output => some { output }
  | .failure message => some { failures := [⟨analyzer.name, message⟩] }
  | .crash => none

namespace Chain

def run? : Chain → FeatureRecord → Option ChainResult
  | [], _ => some {}
  | analyzer :: rest, record => do
    let first ← analyzer.contribution? record
    let others ← run? rest record
    return first ++ others

/-- The code scanner, the dependency mapper and the cloud readiness check. -/
def standard (config : Config) : Chain :=
  [CodeScanner.analyzer config.scanner, DependencyMapper.analyzer config.dependencies,
    CloudReadiness.analyzer config.cloud]

end Chain

end LegacyAudit
