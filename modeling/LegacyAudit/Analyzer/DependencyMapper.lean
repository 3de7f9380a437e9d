import LegacyAudit.Analyzer.Basic
import LegacyAudit.Config

/-!
# The dependency mapper

Holds every import against every rule. Each hit names a dependency; each rule with a hit leads to
one recommendation.

## Main definitions

- `DependencyMapper.hits` - the rules that match, by import and then by rule
- `DependencyMapper.scan` - what the mapper says about a record

## Design notes

A rule is known by its place in the list, since two rules may be equal.
-/

namespace LegacyAudit.DependencyMapper

/-- The rules with their places that match an import. -/
def matching (rules : List DependencyRule) (text : String) : List (DependencyRule × Nat) :=
  rules.zipIdx.filter fun r => r.1.matchesImport text

/-- The rules with their places that match the imports, import by import. -/
def hits (rules : List DependencyRule) (imports : List String) : List (DependencyRule × Nat) :=
  imports.flatMap (matching rules)

def dependency (rule : DependencyRule) : DependencyDraft where
  name := rule.name
  dependencyType := rule.dependencyType
  status := rule.status
  severity := rule.severity
  migrationComplexity := rule.migrationComplexity

def recommendation (rule : DependencyRule) : RecommendationDraft where
  kind := .frameworkUpgrade
  priority := .ofSeverity rule.severity
  title := rule.recommendation
  description := rule.name ++ " is " ++ rule.status.name ++ ": " ++ rule.recommendation
  estimatedEffort := rule.estimatedEffort
  benefits := ["Security patches", "Long-term support"]
  implementationSteps :=
    ["Inventory every use of " ++ rule.name, rule.recommendation, "Run the regression suite"]

def scan (config : DependencyConfig) (record : FeatureRecord) : Output where
  dependencies := (hits config.rules record.imports).map fun hit => dependency hit.1
  recommendations :=
    -- Hits carry the places of their rules, so equal rules are advised one by one.
    (hits config.rules record.imports).eraseDups.map fun hit => recommendation hit.1

def analyzer (config : DependencyConfig) : Analyzer where
  name := "dependency_mapper"
  analyze record := .output (scan config record)

end LegacyAudit.DependencyMapper
