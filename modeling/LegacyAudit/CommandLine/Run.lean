import LegacyAudit.CommandLine.Command
import LegacyAudit.CommandLine.Complaint
import LegacyAudit.FileTree.Collect
import LegacyAudit.Config.YamlText
import LegacyAudit.Job.Run
import LegacyAudit.Report.Pretty

/-!
# Running commands

A command works on a tree of files and ends with an exit code, its output, and complaints. The tree
is changed by the command that writes a configuration file only.

## Main definitions

- `Workplace` - what a command works on
- `Outcome` - how a command ends
- `Workplace.analyze`, `Workplace.writeConfig` - the two commands
- `Workplace.run` - runs a command
-/

namespace LegacyAudit

structure Workplace where
  tree : FileTree
  /-- The directory that relative paths start from. -/
  here : Location
  syntaxTrees : TreeSource
  /-- The identifier of the next job. -/
  jobId : JobId
  now : Timestamp

structure Outcome where
  exitCode : Nat
  output : String := ""
  complaints : List Complaint := []
  tree : FileTree

namespace Outcome

def success : Nat := 0

def jobFailed : Nat := 1

def failure : Nat := 2

end Outcome

namespace Workplace

def complain (w : Workplace) (exitCode : Nat) (complaint : Complaint) : Outcome where
  exitCode
  complaints := [complaint]
  tree := w.tree

/-- The configuration file in a directory, seen from there, if there is one. -/
def configName? (tree : FileTree) (here : Location) : Option String :=
  configNames.find? fun name => tree.pathIsFile here name

/-- The path of the configuration file to use: the one that is asked for, or one that is found. -/
def configPath? (w : Workplace) (asked : Option String) : Option String :=
  asked.or ((configName? w.tree w.here).map (Path.join "."))

def readConfig (w : Workplace) (path : String) : Except ConfigFileError Config :=
  match w.tree.read w.here path with
  | .error e => .error (.file e)
  | .ok content =>
    match Config.ofBytes content with
    | .error e => .error (.content e)
    | .ok config => .ok config

/-- The configuration to use, which has to be valid. -/
def config (w : Workplace) (path : Option String) : Except Complaint Config := do
  let config ← match path with
    | none => pure {}
    | some path =>
      match w.readConfig path with
      | .ok config => pure config
      | .error e => throw (.badConfigFile path e)
  match config.firstFault? with
  | some fault => throw (.badConfig fault)
  | none => return config

/-- The files to analyze at a location, named as seen from the project's directory. A single file is
taken whatever the configuration says. -/
def sources (w : Workplace) (config : Config) (location : Location) :
    Except WalkError (List SourceFile) :=
  match w.tree.entry? location with
  | some (.file content) => .ok [⟨location.getLast?.getD "", content⟩]
  | _ => do
    let root := FileTree.pathOf location
    let found ← w.tree.collect config [] root
    return found.map fun file => ⟨(Path.beneath? root file.path).getD file.path, file.content⟩

/-- The name of the project at a location: that of its directory or file, without an extension. -/
def projectName (location : Location) : String :=
  match location.getLast? with
  | some name => String.ofList (Path.stem name.toList)
  | none => "project"

def metadata (request : AnalyzeRequest) (location : Location) : ProjectMetadata where
  name := request.name.getD (projectName location)
  description := request.description
  targetPlatform := request.targetPlatform
  analysisDepth := request.depth

/-- Runs a job on files that were asked for, and gives the job as it is stored afterwards. -/
def runFiles (w : Workplace) (config : Config) (metadata : ProjectMetadata)
    (files : List SourceFile) : Option Job :=
  let (_, store) := submit (Store.storage w.now) w.syntaxTrees (Chain.standard config) w.now w.jobId
    metadata files {}
  store.getJob? w.jobId

/-- The report on a job in the format that is asked for, with a line end. -/
def reportText (request : AnalyzeRequest) (configPath : Option String) (job : Job) : String :=
  let report : Report := ⟨request.path, configPath, job.summary⟩
  match request.format with
  | .json => report.json ++ "\n"
  | .pretty => report.pretty false

def analyzeAt (w : Workplace) (request : AnalyzeRequest) (configPath : Option String)
    (config : Config) (location : Location) : Except WalkError Outcome := do
  let files ← w.sources config location
  if files.isEmpty then return w.complain Outcome.success .noFiles
  match w.runFiles config (metadata request location) files with
  | none => return { exitCode := Outcome.failure, tree := w.tree }
  | some job =>
    return {
      exitCode := if job.status = .completed then Outcome.success else Outcome.jobFailed
      output := reportText request configPath job
      tree := w.tree }

/-- Analyzes a path. The configuration is read before the path is looked for. -/
def analyze (w : Workplace) (request : AnalyzeRequest) : Except WalkError Outcome :=
  let configPath := w.configPath? request.configPath
  match w.config configPath with
  | .error complaint => .ok (w.complain Outcome.failure complaint)
  | .ok config =>
    match w.tree.canonical w.here request.path with
    | .error e => .ok (w.complain Outcome.failure (.noAccess request.path e))
    | .ok location => w.analyzeAt request configPath config location

def writtenText (path : String) : String :=
  "Created " ++ path ++ "\n\nNext steps:\n  1. Edit " ++ path ++
    " to tune keywords and dependency rules\n  2. Run: " ++ programName ++ " analyze . --config " ++
    path ++ "\n"

/-- The tree with the directories in which a path is to be written. -/
def withDirectories (w : Workplace) (path : String) : Except FileError FileTree :=
  match Path.above path with
  | [] => .ok w.tree
  | nearest :: above =>
    if nearest = "." then .ok w.tree else w.tree.makeDirectories w.here nearest above

/-- Writes the built-in configuration to a file that is not there yet. -/
def writeConfig (w : Workplace) (request : InitRequest) : Outcome :=
  if w.tree.pathExists w.here request.output then
    w.complain Outcome.failure (.outputExists request.output)
  else
    match w.withDirectories request.output with
    | .error e => w.complain Outcome.failure (.noDirectory e)
    | .ok tree =>
      match tree.write w.here request.output (Text.encode ({} : Config).toYaml) with
      | .error e => { w.complain Outcome.failure (.noOutput e) with tree }
      | .ok tree =>
        { exitCode := Outcome.success, output := writtenText request.output, tree }

/-- Runs a command, unless a walk breaks. -/
def perform (w : Workplace) (command : Command) : Except WalkError Outcome :=
  match command with
  | .analyze request => w.analyze request
  | .init request => .ok (w.writeConfig request)

/-- Runs a command. A broken walk is a complaint too. -/
def run (w : Workplace) (command : Command) : Outcome :=
  match w.perform command with
  | .ok outcome => outcome
  | .error e => w.complain Outcome.failure (.brokenWalk e)

end Workplace

end LegacyAudit
