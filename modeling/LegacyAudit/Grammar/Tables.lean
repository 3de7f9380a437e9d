import LegacyAudit.Syntax.Rules

/-!
# The rule tables of the supported languages

## Main definitions

- `RuleTable.java`, `RuleTable.javaScript`, `RuleTable.typeScript`, `RuleTable.python`,
  `RuleTable.cSharp` - one table for each grammar
- `Language.rules?` - the table of a language that has a grammar
-/

namespace LegacyAudit

namespace RuleTable

/-- Java. Loops count with and without their condition in front, switch groups and arrow rules
count as cases. -/
def java : RuleTable where
  functions := [("method_declaration", .method)]
  classes := [("class_declaration", .classDecl), ("interface_declaration", .interfaceDecl),
    ("enum_declaration", .enumDecl), ("record_declaration", .recordDecl)]
  imports := ["import_declaration"]
  identifiers := ["identifier"]
  parameters := ⟨"formal_parameters", ["formal_parameter", "spread_parameter"]⟩
  decisions := [("if_statement", .conditional), ("while_statement", .whileLoop),
    ("do_statement", .whileLoop), ("for_statement", .forLoop),
    ("enhanced_for_statement", .forLoop), ("switch_block_statement_group", .caseBranch),
    ("switch_rule", .caseBranch), ("catch_clause", .catchClause)]

def scriptFunctions : KindTable DeclarationKind :=
  [("function_declaration", .function), ("generator_function_declaration", .function)]

/-- The decisions of JavaScript and TypeScript. A `default` branch is no case. -/
def scriptDecisions : KindTable DecisionKind :=
  [("if_statement", .conditional), ("while_statement", .whileLoop), ("do_statement", .whileLoop),
    ("for_statement", .forLoop), ("for_in_statement", .forLoop), ("switch_case", .caseBranch),
    ("catch_clause", .catchClause)]

/-- JavaScript. Only plain identifiers count as parameters. -/
def javaScript : RuleTable where
  functions := scriptFunctions
  classes := [("class_declaration", .classDecl)]
  imports := ["import_statement"]
  identifiers := ["identifier"]
  parameters := ⟨"formal_parameters", ["identifier"]⟩
  decisions := scriptDecisions

/-- TypeScript. The names of types are identifiers of a kind of their own. -/
def typeScript : RuleTable where
  functions := scriptFunctions
  classes := [("class_declaration", .classDecl), ("abstract_class_declaration", .classDecl),
    ("interface_declaration", .interfaceDecl), ("enum_declaration", .enumDecl)]
  imports := ["import_statement"]
  identifiers := ["identifier", "type_identifier"]
  parameters := ⟨"formal_parameters", ["required_parameter", "optional_parameter"]⟩
  decisions := scriptDecisions

/-- Python. Only plain identifiers count as parameters; `elif` counts as a conditional, `except` as
a catch clause and an arm of a `match` as a case. -/
def python : RuleTable where
  functions := [("function_definition", .function)]
  classes := [("class_definition", .classDecl)]
  imports := ["import_statement", "import_from_statement", "future_import_statement"]
  identifiers := ["identifier"]
  parameters := ⟨"parameters", ["identifier"]⟩
  decisions := [("if_statement", .conditional), ("elif_clause", .conditional),
    ("while_statement", .whileLoop), ("for_statement", .forLoop), ("case_clause", .caseBranch),
    ("except_clause", .catchClause)]

/-- C#. Methods stand inside types, so the top level mostly holds types and `using` directives. -/
def cSharp : RuleTable where
  functions := [("method_declaration", .method), ("local_function_statement", .function)]
  classes := [("class_declaration", .classDecl), ("interface_declaration", .interfaceDecl),
    ("struct_declaration", .structDecl), ("record_declaration", .recordDecl),
    ("enum_declaration", .enumDecl)]
  imports := ["using_directive"]
  identifiers := ["identifier"]
  parameters := ⟨"parameter_list", ["parameter"]⟩
  decisions := [("if_statement", .conditional), ("while_statement", .whileLoop),
    ("do_statement", .whileLoop), ("for_statement", .forLoop), ("foreach_statement", .forLoop),
    ("switch_section", .caseBranch), ("catch_clause", .catchClause)]

end RuleTable

def Language.rules? : Language → Option RuleTable
  | .java => some .java
  | .javaScript => some .javaScript
  | .typeScript => some .typeScript
  | .python => some .python
  | .cSharp => some .cSharp
  | .cobol | .unknown => none

end LegacyAudit
