import LegacyAudit.Text.Split

/-!
# Reading arguments

Options have a long name, most of them also a letter, and take one value: attached to the option or
as the next argument. Letters can be joined behind one hyphen. Behind `--` there are no options. A
value is checked when the argument after it is taken in, so that an option which nobody knows is
reported before the value in front of it.

## Main definitions

- `UsageError` - why arguments cannot be read, with its exit code and message
- `ArgumentTable` - the options and the positional argument of a command
- `ArgumentReader.step` - takes in one argument
- `ArgumentTable.read` - reads the arguments of a command
-/

namespace LegacyAudit

open LegacyAudit.Text

/-- Why arguments cannot be read, or what is asked for instead of a run. -/
inductive UsageError where
  | helpRequested
  | versionRequested
  /-- There is no argument at all. -/
  | nothingAsked
  | commandMissing
  | unknownCommand
  | unknownArgument
  /-- A value that is missing or not allowed. -/
  | invalidValue
  /-- A value for a flag. -/
  | unexpectedValue
  | repeatedOption
  | argumentMissing
  deriving DecidableEq, Repr

namespace UsageError

/-- The exit code: asking for help is no error. -/
def exitCode : UsageError → Nat
  | helpRequested | versionRequested => 0
  | _ => 2

def message : UsageError → String
  | helpRequested => "usage: analyze PATH [OPTIONS] | init [OPTIONS]"
  | versionRequested => ""
  | nothingAsked | commandMissing => "a command is required: analyze or init"
  | unknownCommand => "unknown command"
  | unknownArgument => "unexpected argument"
  | invalidValue => "missing or invalid value"
  | unexpectedValue => "this option takes no value"
  | repeatedOption => "an option is given more than once"
  | argumentMissing => "a required argument is missing"

end UsageError

inductive ArgumentShape where
  | dashes
  | long (name : String) (value : Option String)
  | letters (letters : List Char)
  | plain
  deriving DecidableEq, Repr

namespace ArgumentShape

/-- A long option: its name, and the value behind the first equals sign. -/
def ofLong (text : List Char) : ArgumentShape :=
  let name := String.ofList (text.takeWhile (· ≠ '='))
  match text.dropWhile (· ≠ '=') with
  | [] => .long name none
  | _ :: value => .long name (some (String.ofList value))

/-- What an argument looks like. A lone hyphen is an ordinary argument. -/
def ofText (argument : String) : ArgumentShape :=
  match argument.toList with
  | ['-', '-'] => .dashes
  | '-' :: '-' :: rest => ofLong rest
  | '-' :: letter :: rest => .letters (letter :: rest)
  | _ => .plain

end ArgumentShape

/-- The options of a command, named by `κ`. -/
structure ArgumentTable (κ : Type) where
  long : List (String × κ)
  letters : List (Char × κ)
  positional : Option κ
  accepts : κ → String → Bool

structure ArgumentReader (κ : Type) where
  values : List (κ × String) := []
  /-- An option whose value is still to come or to be checked. -/
  pending : Option (κ × Option String) := none
  hasPositional : Bool := false
  onlyPositional : Bool := false
  verbosity : Nat := 0
  deriving Repr

namespace ArgumentReader

variable {κ : Type} [DecidableEq κ]

/-- Notes the value of an option, which may have only one. -/
def record (table : ArgumentTable κ) (r : ArgumentReader κ) (key : κ) (value : String) :
    Except UsageError (ArgumentReader κ) :=
  if r.values.any (·.1 = key) then .error .repeatedOption
  else if table.accepts key value then .ok { r with values := r.values ++ [(key, value)] }
  else .error .invalidValue

def settle (table : ArgumentTable κ) (r : ArgumentReader κ) :
    Except UsageError (ArgumentReader κ) :=
  match r.pending with
  | none => .ok r
  | some (_, none) => .error .invalidValue
  | some (key, some value) => record table { r with pending := none } key value

/-- Takes in an option with the value that is attached to it. -/
def takeOption (table : ArgumentTable κ) (r : ArgumentReader κ) (key : κ) (value : Option String) :
    Except UsageError (ArgumentReader κ) := do
  let r ← r.settle table
  match value with
  | some value => r.record table key value
  | none => return { r with pending := some (key, none) }

def verbosityLimit : Nat := 255

def takeVerbose (table : ArgumentTable κ) (r : ArgumentReader κ) :
    Except UsageError (ArgumentReader κ) := do
  let r ← r.settle table
  return { r with verbosity := min verbosityLimit (r.verbosity + 1) }

def takeHelp (table : ArgumentTable κ) (r : ArgumentReader κ) :
    Except UsageError (ArgumentReader κ) := do
  let _ ← r.settle table
  throw .helpRequested

def takeLong (table : ArgumentTable κ) (r : ArgumentReader κ) (name : String)
    (value : Option String) : Except UsageError (ArgumentReader κ) :=
  match table.long.lookup name with
  | some key => r.takeOption table key value
  | none =>
    if name = "help" || name = "verbose" then
      if value.isSome then .error .unexpectedValue
      else if name = "help" then r.takeHelp table
      else r.takeVerbose table
    else .error .unknownArgument

/-- The value attached to an option letter, with or without an equals sign. -/
def attachedValue? (text : List Char) : Option String :=
  if text = [] then none else some (String.ofList ((withoutPrefix? ['='] text).getD text))

/-- Takes in joined letters. The first option that takes a value has all that follows for it. -/
def takeLetters (table : ArgumentTable κ) (r : ArgumentReader κ) :
    List Char → Except UsageError (ArgumentReader κ)
  | [] => .ok r
  | letter :: rest =>
    match table.letters.lookup letter with
    | some key => r.takeOption table key (attachedValue? rest)
    | none =>
      if letter = 'h' then r.takeHelp table
      else if letter = 'v' then do
        let r ← r.takeVerbose table
        takeLetters table r rest
      else .error .unknownArgument

def takePositional (table : ArgumentTable κ) (r : ArgumentReader κ) (argument : String) :
    Except UsageError (ArgumentReader κ) :=
  match table.positional with
  | some key =>
    if r.hasPositional then .error .unknownArgument
    else do
      let r ← r.settle table
      return { r with hasPositional := true, pending := some (key, some argument) }
  | none => .error .unknownArgument

def step (table : ArgumentTable κ) (r : ArgumentReader κ) (argument : String) :
    Except UsageError (ArgumentReader κ) :=
  if r.onlyPositional then r.takePositional table argument
  else
    match ArgumentShape.ofText argument, r.pending with
    | .dashes, _ => .ok { r with onlyPositional := true }
    | .long name value, _ => r.takeLong table name value
    | .letters letters, _ => r.takeLetters table letters
    | .plain, some (key, none) => .ok { r with pending := some (key, some argument) }
    | .plain, _ => r.takePositional table argument

end ArgumentReader

/-- Reads the arguments of a command: the values by option, and the verbosity. -/
def ArgumentTable.read {κ : Type} [DecidableEq κ] (table : ArgumentTable κ)
    (arguments : List String) : Except UsageError (List (κ × String) × Nat) := do
  let r ← arguments.foldlM (ArgumentReader.step table) {}
  let r ← r.settle table
  return (r.values, r.verbosity)

end LegacyAudit
