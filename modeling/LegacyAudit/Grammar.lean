import LegacyAudit.Grammar.Tables
import LegacyAudit.Syntax.Complexity
import LegacyAudit.Syntax.Extraction

/-!
# Parsing a file

A grammar turns the bytes of a file into a syntax tree or fails with a message. Parsing always ends
in a feature record: from the tree, or degraded where there is none.

## Main definitions

- `Grammar` - a parser with the language it reports and its rule table
- `TreeSource` - where the trees of files come from; `TreeSource.grammar?` makes grammars of it
- `ParseOutcome` - a tree or a degraded record, with `ParseOutcome.toRecord`
- `parseWith`, `parseFile` - parsing with a grammar and by language
-/

namespace LegacyAudit

structure Grammar where
  /-- The language that records of this grammar carry. -/
  tag : Language
  rules : RuleTable
  /-- The tree of a file, or the message of a failure. Faulty code still has a tree. -/
  parse : List UInt8 → Except String SyntaxTree

/-- The trees of files by language and content. The parsers themselves are not part of this
library, so whoever analyses files says what their trees are. -/
abbrev TreeSource := Language → List UInt8 → Except String SyntaxTree

/-- The grammar of a language, which takes its trees from the source. -/
def TreeSource.grammar? (trees : TreeSource) (language : Language) : Option Grammar :=
  language.rules?.map fun rules => { tag := language, rules, parse := trees language }

inductive ParseOutcome where
  /-- A tree, with the grammar that found it and the content it belongs to. -/
  | parsed (grammar : Grammar) (tree : SyntaxTree) (content : String)
  /-- No grammar, or one that failed. The record is final. -/
  | degraded (record : FeatureRecord)

def recordOfTree (grammar : Grammar) (tree : SyntaxTree) (content : String) : FeatureRecord :=
  let extraction := extract tree (Text.encode content) grammar.rules
  { language := grammar.tag
    functions := extraction.functions
    classes := extraction.classes
    imports := extraction.imports
    complexity := complexity tree grammar.rules.decisions
    linesOfCode := lineCount content
    parseError := none }

def ParseOutcome.toRecord : ParseOutcome → FeatureRecord
  | parsed grammar tree content => recordOfTree grammar tree content
  | degraded record => record

def parseWith (grammar : Grammar) (content : String) : ParseOutcome :=
  match grammar.parse (Text.encode content) with
  | .ok tree => .parsed grammar tree content
  | .error message => .degraded (.parseFailure grammar.tag content message)

/-- Parses a text in a language. Without a grammar the record is degraded and carries no error. -/
def parseFile (trees : TreeSource) (language : Language) (content : String) : ParseOutcome :=
  match trees.grammar? language with
  | some grammar => parseWith grammar content
  | none => .degraded (.degraded language content)

end LegacyAudit
