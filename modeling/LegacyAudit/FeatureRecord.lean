import LegacyAudit.Language

/-!
# Feature records

What is known about one source file once it has been read: its top-level functions, classes and
imports, its cyclomatic complexity and its number of lines. A file that could not be parsed has a
degraded record, which holds the line count only.

## Main definitions

- `DeclarationKind` - what sort of declaration was found
- `FunctionFacts`, `ClassFacts` - one declaration at the top level of a file
- `FeatureRecord` - the summary of one file
- `lineCount` - the number of lines of a text
- `FeatureRecord.degraded`, `FeatureRecord.parseFailure` - the records of files without a tree
-/

namespace LegacyAudit

inductive DeclarationKind where
  | function
  | method
  | classDecl
  | interfaceDecl
  | enumDecl
  | structDecl
  | recordDecl
  deriving DecidableEq, Repr, Inhabited

namespace DeclarationKind

def name : DeclarationKind → String
  | function => "function"
  | method => "method"
  | classDecl => "class"
  | interfaceDecl => "interface"
  | enumDecl => "enum"
  | structDecl => "struct"
  | recordDecl => "record"

def byName : List (String × DeclarationKind) :=
  [function, method, classDecl, interfaceDecl, enumDecl, structDecl, recordDecl].map fun k =>
    (k.name, k)

end DeclarationKind

/-- A function or method at the top level of a file. Lines count from 0; the last one belongs to
the declaration. -/
structure FunctionFacts where
  name : String
  kind : DeclarationKind
  parameters : List String
  startLine : UInt64
  endLine : UInt64
  deriving DecidableEq, Repr

/-- A class or another type at the top level of a file. Lines count from 0; the last one belongs to
the declaration. -/
structure ClassFacts where
  name : String
  kind : DeclarationKind
  startLine : UInt64
  endLine : UInt64
  deriving DecidableEq, Repr

structure FeatureRecord where
  language : Language
  functions : List FunctionFacts
  classes : List ClassFacts
  imports : List String
  complexity : UInt32
  linesOfCode : UInt64
  parseError : Option String
  deriving DecidableEq, Repr

/-- The number of lines of a text: one more than its line breaks. -/
def lineCount (content : String) : UInt64 :=
  UInt64.ofNat (content.toList.count '\n' + 1)

namespace FeatureRecord

/-- The record of a file without a tree: no structure and complexity 0. -/
def degraded (language : Language) (content : String) : FeatureRecord where
  language
  functions := []
  classes := []
  imports := []
  complexity := 0
  linesOfCode := lineCount content
  parseError := none

/-- The record of a file on which its grammar failed with a message. -/
def parseFailure (language : Language) (content message : String) : FeatureRecord :=
  { degraded language content with parseError := some message }

end FeatureRecord

end LegacyAudit
