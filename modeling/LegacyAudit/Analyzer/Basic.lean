import LegacyAudit.FeatureRecord.Json
import LegacyAudit.Result.Draft
import LegacyAudit.Text.Search

/-!
# Analyzers

An analyzer looks at the record of one file and says something about it. It sees neither the file
nor what other analyzers say.

## Main definitions

- `Reaction` - what comes of showing a record to an analyzer
- `Analyzer` - a named function from records to reactions
- `firstSignal?` - the first keyword that the text of a record shows
- `locate` - the lines of the first declaration that mentions a keyword
-/

namespace LegacyAudit

open LegacyAudit.Text

/-- What comes of showing a record to an analyzer. -/
inductive Reaction where
  | output (output : Output)
  /-- The analyzer gives up, with a message. -/
  | failure (message : String)
  /-- The analyzer breaks down and takes the whole analysis of the file with it. -/
  | crash

structure Analyzer where
  name : String
  analyze : FeatureRecord → Reaction

/-- The first keyword, as configured, that occurs in the lower-case text. Empty keywords never
occur. -/
def firstSignal? (text : String) (keywords : List String) : Option String :=
  keywords.find? fun keyword => !keyword.isEmpty && contains text (lower keyword)

/-- Whether a name contains the keyword, whatever the case. -/
def mentions (keyword name : String) : Bool :=
  contains (lower name) (lower keyword)

/-- Whether the name or a parameter of a function contains the keyword. -/
def FunctionFacts.mentions (keyword : String) (f : FunctionFacts) : Bool :=
  LegacyAudit.mentions keyword f.name || f.parameters.any (LegacyAudit.mentions keyword)

def ClassFacts.mentions (keyword : String) (c : ClassFacts) : Bool :=
  LegacyAudit.mentions keyword c.name

/-- The lines of the first function that mentions the keyword, or else of the first such class, or
else the first line of the file. -/
def locate (record : FeatureRecord) (keyword : String) : LineSpan :=
  match record.functions.find? (·.mentions keyword) with
  | some f => .ofRows f.startLine f.endLine
  | none =>
    match record.classes.find? (·.mentions keyword) with
    | some c => .ofRows c.startLine c.endLine
    | none => .line 1

end LegacyAudit
