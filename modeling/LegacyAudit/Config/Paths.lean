import LegacyAudit.Config
import LegacyAudit.Glob.Reader

/-!
# Excluded paths

## Main definitions

- `Config.isExcluded` - whether a configuration keeps a path from being read
-/

namespace LegacyAudit

/-- Whether the pattern can be read and matches the path. -/
def patternMatches (path pattern : String) : Bool :=
  match Glob.parse pattern with
  | .ok g => g.matchesPath path
  | .error _ => false

/-- Whether one of the patterns of the configuration matches the path. Patterns that cannot be read
match nothing. -/
def Config.isExcluded (config : Config) (path : String) : Bool :=
  config.excludedPaths.any (patternMatches path)

end LegacyAudit
