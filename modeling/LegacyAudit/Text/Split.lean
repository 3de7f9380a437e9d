/-!
# Splitting text

## Main definitions

- `splitAtEvery` - the pieces between the occurrences of a separator
- `withoutPrefix?` - what follows a given beginning
-/

namespace LegacyAudit.Text

/-- Splits a list at every occurrence of `separator`. -/
def splitAtEvery (separator : Char) : List Char → List (List Char)
  | [] => [[]]
  | c :: rest =>
    if c = separator then [] :: splitAtEvery separator rest
    else
      match splitAtEvery separator rest with
      | [] => [[c]]
      | first :: more => (c :: first) :: more

/-- What follows `start` in a text that begins with it. -/
def withoutPrefix? (start : List Char) (text : List Char) : Option (List Char) :=
  if start.isPrefixOf text then some (text.drop start.length) else none

end LegacyAudit.Text
