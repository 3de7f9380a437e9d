/-!
# Blank text

## Main definitions

- `isBlank` - the white space characters of Unicode
- `isBlankText` - a text without any other character
-/

namespace LegacyAudit.Text

/-- The characters with the Unicode property `White_Space`. -/
def isBlank (c : Char) : Bool :=
  let n := c.toNat
  (decide (0x09 ≤ n) && decide (n ≤ 0x0D)) || n == 0x20 || n == 0x85 || n == 0xA0 || n == 0x1680 ||
    (decide (0x2000 ≤ n) && decide (n ≤ 0x200A)) || n == 0x2028 || n == 0x2029 || n == 0x202F ||
    n == 0x205F || n == 0x3000

/-- Whether nothing remains of the text once white space is taken off both ends. -/
def isBlankText (s : String) : Bool :=
  s.toList.all isBlank

end LegacyAudit.Text
