/-!
# What is wrong with a YAML text

## Main definitions

- `Yaml.Fault` - the sorts of faults, with `Yaml.Fault.message`
-/

namespace LegacyAudit.Yaml

inductive Fault where
  /-- A character that no stream may hold. -/
  | character
  /-- A piece of text that is no token. -/
  | token
  /-- Tokens in an order that makes no document. -/
  | order
  /-- An alias without its anchor. -/
  | unknownAlias
  /-- Aliases that are followed too often. -/
  | repetition
  /-- More than one document. -/
  | documents
  /-- A value of another kind than its place asks for. -/
  | value
  deriving DecidableEq, Repr

def Fault.message : Fault → String
  | character => "control characters are not allowed"
  | token => "found text that is no YAML token"
  | order => "found a token where it does not belong"
  | unknownAlias => "unknown anchor"
  | repetition => "repetition limit exceeded"
  | documents => "deserializing from YAML containing more than one document is not supported"
  | value => "found a value of another type than expected"

end LegacyAudit.Yaml
