import LegacyAudit.Text.Decimal
import LegacyAudit.Text.Hidden

/-!
# Quoted text in messages

A message quotes a name so that every character can be seen: the quotes, the backslash and the
common control characters behind a backslash, hidden characters by number.

## Main definitions

- `escapeChar` - one character inside quotes
- `quoted` - a text in double quotes
-/

namespace LegacyAudit.Text

def escapeChar (c : Char) : List Char :=
  if c = '\x00' then ['\\', '0']
  else if c = '\t' then ['\\', 't']
  else if c = '\r' then ['\\', 'r']
  else if c = '\n' then ['\\', 'n']
  else if c = '\\' || c = '"' then ['\\', c]
  else if isHidden c then "\\u\x7b".toList ++ hexChars c.toNat ++ ['}']
  else [c]

/-- `s` in double quotes with everything escaped that would not show. -/
def quoted (s : String) : String :=
  String.ofList ('"' :: s.toList.flatMap escapeChar ++ ['"'])

end LegacyAudit.Text
