import LegacyAudit.Config
import LegacyAudit.Glob.Reader
import LegacyAudit.Text.Blank
import LegacyAudit.Text.Decimal
import LegacyAudit.Text.Quoted

/-!
# Valid configurations

A configuration can be read and still make no sense. The checks run in a fixed order and the first
fault is reported.

## Main definitions

- `ConfigFault` - what is wrong with a configuration
- `Config.firstFault?` - the first fault
-/

namespace LegacyAudit

open LegacyAudit.Text

inductive ConfigFault where
  | scannerConfidence (value : UInt8)
  | cloudConfidence (value : UInt8)
  | noLineThreshold
  | scores (reduced ready : UInt8)
  | emptySubstring (rule : String)
  | badPattern (pattern : String) (error : Glob.ReadError)
  deriving DecidableEq, Repr

def ConfigFault.message : ConfigFault → String
  | scannerConfidence value => "scanner.confidence " ++ decimal value.toNat ++ " exceeds 100"
  | cloudConfidence value => "cloud.confidence " ++ decimal value.toNat ++ " exceeds 100"
  | noLineThreshold => "scanner.large_file_lines must be greater than 0"
  | scores reduced ready =>
    "cloud scores must satisfy reduced_score <= ready_score <= 100 (got " ++
      decimal reduced.toNat ++ " and " ++ decimal ready.toNat ++ ")"
  | emptySubstring rule => "dependency rule " ++ quoted rule ++ " has an empty substring"
  | badPattern pattern error =>
    "invalid excluded_paths pattern " ++ quoted pattern ++ ": " ++ error.message

/-- Whether a rule has no substring, or one that is blank. -/
def DependencyRule.isHollow (rule : DependencyRule) : Bool :=
  rule.contains.isEmpty || rule.contains.any isBlankText

def DependencyRule.fault? (rule : DependencyRule) : Option ConfigFault :=
  if rule.isHollow then some (.emptySubstring rule.name) else none

def patternFault? (pattern : String) : Option ConfigFault :=
  match Glob.parse pattern with
  | .ok _ => none
  | .error e => some (.badPattern pattern e)

/-- The first fault of the numbers in a configuration. -/
def Config.numberFault? (config : Config) : Option ConfigFault :=
  if 100 < config.scanner.confidence then some (.scannerConfidence config.scanner.confidence)
  else if 100 < config.cloud.confidence then some (.cloudConfidence config.cloud.confidence)
  else if config.scanner.largeFileLines = 0 then some .noLineThreshold
  else if config.cloud.readyScore < config.cloud.reducedScore || 100 < config.cloud.readyScore then
    some (.scores config.cloud.reducedScore config.cloud.readyScore)
  else none

/-- The first fault of a configuration: numbers, then rules, then patterns. -/
def Config.firstFault? (config : Config) : Option ConfigFault :=
  config.numberFault?.or
    ((config.dependencies.rules.findSome? (·.fault?)).or
      (config.excludedPaths.findSome? patternFault?))

end LegacyAudit
