import LegacyAudit.FeatureRecord
import LegacyAudit.Json.Decode
import LegacyAudit.Json.Writer

/-!
# Feature records as JSON

## Main definitions

- `FeatureRecord.toJson`, `FeatureRecord.decode` - the two directions
- `FeatureRecord.signalText` - the text in which keywords are looked for
-/

namespace LegacyAudit

open LegacyAudit.Text

def Language.decode : Decoder Language :=
  decodeChoice Language.byName

def DeclarationKind.decode : Decoder DeclarationKind :=
  decodeChoice DeclarationKind.byName

namespace FunctionFacts

def toJson (f : FunctionFacts) : Json :=
  .object [("name", .string f.name), ("type", .string f.kind.name),
    ("parameters", .strings f.parameters), ("start_line", .nat f.startLine.toNat),
    ("end_line", .nat f.endLine.toNat)]

def nameField := Field.required "name" decodeString

def kindField := Field.required "type" DeclarationKind.decode

def parametersField := Field.required "parameters" (decodeList decodeString)

def startLineField := Field.required "start_line" decodeSize

def endLineField := Field.required "end_line" decodeSize

def decode : Decoder FunctionFacts :=
  decodeRecord "FunctionInfo"
    [nameField.toCheck, kindField.toCheck, parametersField.toCheck, startLineField.toCheck,
      endLineField.toCheck]
    fun members => do
      let name ← nameField.get members
      let kind ← kindField.get members
      let parameters ← parametersField.get members
      let startLine ← startLineField.get members
      let endLine ← endLineField.get members
      return { name, kind, parameters, startLine, endLine }

end FunctionFacts

namespace ClassFacts

def toJson (c : ClassFacts) : Json :=
  .object [("name", .string c.name), ("type", .string c.kind.name),
    ("start_line", .nat c.startLine.toNat), ("end_line", .nat c.endLine.toNat)]

def decode : Decoder ClassFacts :=
  decodeRecord "ClassInfo"
    [FunctionFacts.nameField.toCheck, FunctionFacts.kindField.toCheck,
      FunctionFacts.startLineField.toCheck, FunctionFacts.endLineField.toCheck]
    fun members => do
      let name ← FunctionFacts.nameField.get members
      let kind ← FunctionFacts.kindField.get members
      let startLine ← FunctionFacts.startLineField.get members
      let endLine ← FunctionFacts.endLineField.get members
      return { name, kind, startLine, endLine }

end ClassFacts

namespace FeatureRecord

/-- The JSON form of a record. The parse error is left out when there is none. -/
def toJson (r : FeatureRecord) : Json :=
  .object ([("language", .string r.language.name),
    ("functions", .array (r.functions.map FunctionFacts.toJson)),
    ("classes", .array (r.classes.map ClassFacts.toJson)), ("imports", .strings r.imports),
    ("complexity", .nat r.complexity.toNat), ("lines_of_code", .nat r.linesOfCode.toNat)] ++
    Json.optional "parse_error" r.parseError)

def languageField := Field.required "language" Language.decode

def functionsField := Field.required "functions" (decodeList FunctionFacts.decode)

def classesField := Field.required "classes" (decodeList ClassFacts.decode)

def importsField := Field.required "imports" (decodeList decodeString)

def complexityField := Field.required "complexity" decodeWord32

def linesField := Field.required "lines_of_code" decodeSize

def parseErrorField := Field.nullable "parse_error" decodeString

def decode : Decoder FeatureRecord :=
  decodeRecord "FeatureRecord"
    [languageField.toCheck, functionsField.toCheck, classesField.toCheck, importsField.toCheck,
      complexityField.toCheck, linesField.toCheck, parseErrorField.toCheck]
    fun members => do
      let language ← languageField.get members
      let functions ← functionsField.get members
      let classes ← classesField.get members
      let imports ← importsField.get members
      let complexity ← complexityField.get members
      let linesOfCode ← linesField.get members
      let parseError ← parseErrorField.get members
      return { language, functions, classes, imports, complexity, linesOfCode, parseError }

/-- The compact JSON text of a record in lower case, in which keywords are looked for. -/
def signalText (r : FeatureRecord) : String :=
  lower r.toJson.compact

end FeatureRecord

end LegacyAudit
