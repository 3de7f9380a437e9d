import LegacyAudit.CommandLine.Arguments
import LegacyAudit.Job.Basic

/-!
# Commands

Two commands: one analyzes a path, the other writes a configuration file to start from.

## Main definitions

- `Command` - what is asked for
- `Invocation.read` - reads the arguments of the program
-/

namespace LegacyAudit

/-- For whom a report is written. -/
inductive ReportFormat where
  | pretty
  | json
  deriving DecidableEq, Repr

namespace ReportFormat

def name : ReportFormat → String
  | pretty => "pretty"
  | json => "json"

def byName : List (String × ReportFormat) :=
  [pretty, json].map fun f => (f.name, f)

end ReportFormat

structure AnalyzeRequest where
  path : String
  name : Option String := none
  description : Option String := none
  targetPlatform : Option String := none
  depth : AnalysisDepth := .standard
  configPath : Option String := none
  format : ReportFormat := .pretty
  deriving DecidableEq, Repr

/-- The names of configuration files that are found without being asked for, the first one first. -/
def configNames : List String := ["modernizer.yaml", ".modernizer.yaml"]

structure InitRequest where
  output : String := "modernizer.yaml"
  deriving DecidableEq, Repr

inductive Command where
  | analyze (request : AnalyzeRequest)
  | init (request : InitRequest)
  deriving DecidableEq, Repr

inductive AnalyzeOption where
  | path
  | name
  | description
  | targetPlatform
  | depth
  | config
  | format
  deriving DecidableEq, Repr

namespace AnalyzeOption

/-- Whether an option may have a value. A path must not be empty. -/
def accepts (option : AnalyzeOption) (value : String) : Bool :=
  match option with
  | .path | .config => value ≠ ""
  | .depth => (AnalysisDepth.byName.lookup value).isSome
  | .format => (ReportFormat.byName.lookup value).isSome
  | .name | .description | .targetPlatform => true

def table : ArgumentTable AnalyzeOption where
  long := [("name", .name), ("description", .description), ("target-platform", .targetPlatform),
    ("depth", .depth), ("config", .config), ("format", .format)]
  letters := [('n', .name), ('c', .config), ('f', .format)]
  positional := some .path
  accepts := accepts

end AnalyzeOption

inductive InitOption where
  | output
  deriving DecidableEq, Repr

def InitOption.table : ArgumentTable InitOption where
  long := [("output", .output)]
  letters := [('o', .output)]
  positional := none
  accepts := fun _ value => value ≠ ""

def AnalyzeRequest.ofValues (values : List (AnalyzeOption × String)) :
    Except UsageError AnalyzeRequest :=
  match values.lookup .path with
  | none => .error .argumentMissing
  | some path => .ok {
      path
      name := values.lookup .name
      description := values.lookup .description
      targetPlatform := values.lookup .targetPlatform
      depth := ((values.lookup .depth).bind (AnalysisDepth.byName.lookup ·)).getD .standard
      configPath := values.lookup .config
      format := ((values.lookup .format).bind (ReportFormat.byName.lookup ·)).getD .pretty }

def InitRequest.ofValues (values : List (InitOption × String)) : InitRequest where
  output := (values.lookup .output).getD ({} : InitRequest).output

structure Invocation where
  command : Command
  verbosity : Nat
  deriving DecidableEq, Repr

namespace Invocation

/-- The verbosity that counts: the one behind the command, unless there is none. -/
def innermost (outer inner : Nat) : Nat :=
  if inner = 0 then outer else inner

/-- Reads the arguments behind the word `help`, which may name a command. -/
def readHelp (arguments : List String) : UsageError :=
  match arguments with
  | [] => .helpRequested
  | [word] => if ["analyze", "init", "help"].contains word then .helpRequested else .unknownCommand
  | _ => .unknownCommand

/-- The command that a word stands for, with the arguments behind it; `outer` is the verbosity in
front of it. -/
def ofWord? (outer : Nat) (word : String) (arguments : List String) :
    Option (Except UsageError Invocation) :=
  match word with
  | "help" => some (.error (readHelp arguments))
  | "analyze" => some do
    let (values, inner) ← AnalyzeOption.table.read arguments
    let request ← AnalyzeRequest.ofValues values
    return ⟨.analyze request, innermost outer inner⟩
  | "init" => some do
    let (values, inner) ← InitOption.table.read arguments
    return ⟨.init (.ofValues values), innermost outer inner⟩
  | _ => none

def isWord (word : String) : Bool :=
  (ofWord? 0 word []).isSome

/-- Reads joined letters in front of the command. -/
def readLetters (verbosity : Nat) : List Char → Except UsageError Nat
  | [] => .ok verbosity
  | 'h' :: _ => .error .helpRequested
  | 'V' :: _ => .error .versionRequested
  | 'v' :: rest => readLetters (min ArgumentReader.verbosityLimit (verbosity + 1)) rest
  | _ => .error .unknownArgument

/-- Reads a long option in front of the command. -/
def readLong (verbosity : Nat) (name : String) (value : Option String) : Except UsageError Nat :=
  if ["help", "version", "verbose"].contains name then
    if value.isSome then .error .unexpectedValue
    else if name = "help" then .error .helpRequested
    else if name = "version" then .error .versionRequested
    else .ok (min ArgumentReader.verbosityLimit (verbosity + 1))
  else .error .unknownArgument

/-- Reads what is behind two dashes, where no command is looked for. -/
def readBehindDashes (verbosity : Nat) (arguments : List String) : UsageError :=
  match arguments with
  | [] => if verbosity = 0 then .nothingAsked else .commandMissing
  | word :: _ => if isWord word then .unknownArgument else .unknownCommand

/-- Reads arguments; `verbosity` is what has been asked for so far. -/
def readFrom (verbosity : Nat) : List String → Except UsageError Invocation
  | [] => .error (if verbosity = 0 then .nothingAsked else .commandMissing)
  | argument :: rest =>
    match ofWord? verbosity argument rest with
    | some invocation => invocation
    | none =>
      match ArgumentShape.ofText argument with
      | .dashes => .error (readBehindDashes verbosity rest)
      | .long name value => do readFrom (← readLong verbosity name value) rest
      | .letters letters => do readFrom (← readLetters verbosity letters) rest
      | .plain => .error .unknownCommand

def read (arguments : List String) : Except UsageError Invocation :=
  readFrom 0 arguments

end Invocation

end LegacyAudit
