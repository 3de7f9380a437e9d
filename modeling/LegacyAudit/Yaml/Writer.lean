import LegacyAudit.Yaml.Scalar.Writer

/-!
# Writing YAML

Records and lists are written in block style: members two columns to the right of the key they
belong to, items at the column of their key.

## Main definitions

- `Content` - what can be written
- `Content.text` - its YAML text
-/

namespace LegacyAudit.Yaml

open LegacyAudit.Text

/-- What can be written: texts, numbers, lists and records. -/
inductive Content where
  | text (value : String)
  | number (value : Nat)
  | list (items : List Content)
  | record (members : List (String × Content))
  deriving Repr, Inhabited

namespace Content

/-- Ends the line, unless the text has ended it. -/
def endLine (text : List Char) : List Char :=
  if text.getLast?.any isBreak then text else text ++ ['\n']

def blanks (column : Nat) : List Char :=
  List.replicate column ' '

mutual

def afterKey (column : Nat) : Content → List Char
  | .text value => ' ' :: endLine (scalarText (column + 2) value)
  | .number value => ' ' :: decimalChars value ++ ['\n']
  | .list items => if items.isEmpty then " []\n".toList else '\n' :: itemsText column items
  | .record members => '\n' :: membersText (column + 2) members

/-- What follows the dash of an item at the given column. -/
def afterDash (column : Nat) : Content → List Char
  | .text value => ' ' :: endLine (scalarText (column + 2) value)
  | .number value => ' ' :: decimalChars value ++ ['\n']
  | .list items =>
    if items.isEmpty then " []\n".toList
    else ' ' :: (itemsText (column + 2) items).drop (column + 2)
  | .record members => ' ' :: (membersText (column + 2) members).drop (column + 2)

/-- Items whose dashes stand at the given column. -/
def itemsText (column : Nat) : List Content → List Char
  | [] => []
  | item :: rest => blanks column ++ '-' :: afterDash column item ++ itemsText column rest

/-- Members whose keys stand at the given column. -/
def membersText (column : Nat) : List (String × Content) → List Char
  | [] => []
  | (key, value) :: rest =>
    blanks column ++ key.toList ++ ':' :: afterKey column value ++ membersText column rest

end

def texts (values : List String) : Content :=
  .list (values.map .text)

def documentText (members : List (String × Content)) : String :=
  String.ofList (membersText 0 members)

end Content

end LegacyAudit.Yaml
