import LegacyAudit.Path
import LegacyAudit.Text.Lower

/-!
# Languages

Every submitted file gets a language from the extension of its name. Five of the languages have a
grammar; a file in any other is only counted.

## Main definitions

- `Language`, `Language.name` - the languages and their tags
- `Language.ofExtension` - the language of a file extension
- `Language.detect` - the language of a file name
- `Language.hasGrammar`, `Language.supported` - the languages that can be parsed
-/

namespace LegacyAudit

open LegacyAudit.Text

inductive Language where
  | java
  | javaScript
  | typeScript
  | python
  | cSharp
  | cobol
  | unknown
  deriving DecidableEq, Repr, Inhabited

namespace Language

def name : Language → String
  | java => "java"
  | javaScript => "javascript"
  | typeScript => "typescript"
  | python => "python"
  | cSharp => "csharp"
  | cobol => "cobol"
  | unknown => "unknown"

def byName : List (String × Language) :=
  [java, javaScript, typeScript, python, cSharp, cobol, unknown].map fun l => (l.name, l)

/-- The file extensions of each language, in lower case. -/
def extensions : List (String × Language) :=
  [("java", java), ("js", javaScript), ("jsx", javaScript), ("mjs", javaScript),
    ("cjs", javaScript), ("ts", typeScript), ("tsx", typeScript), ("mts", typeScript),
    ("py", python), ("cs", cSharp), ("cob", cobol), ("cbl", cobol), ("cobol", cobol)]

/-- The language of a file extension, whatever the case of its ASCII letters. -/
def ofExtension (extension : List Char) : Language :=
  ((extensions.find? fun e => e.1.toList == lowerAscii extension).map (·.2)).getD unknown

/-- The language of a file name: that of its extension, or `unknown` without one. -/
def detect (filename : String) : Language :=
  match (Path.fileName? filename).bind Path.extension? with
  | some extension => ofExtension extension
  | none => unknown

def hasGrammar : Language → Bool
  | cobol | unknown => false
  | _ => true

def supported : List Language :=
  [cSharp, java, javaScript, python, typeScript]

end Language

end LegacyAudit
