/-!
# Finding one text inside another

## Main definitions

- `occursIn` - whether a text occurs inside another, on characters
- `contains` - the same on strings
-/

namespace LegacyAudit.Text

/-- Whether `needle` occurs in the second list as a contiguous stretch. -/
def occursIn (needle : List Char) : List Char → Bool
  | [] => needle.isEmpty
  | c :: rest => needle.isPrefixOf (c :: rest) || occursIn needle rest

def contains (text needle : String) : Bool :=
  occursIn needle.toList text.toList

end LegacyAudit.Text
