import LegacyAudit.Config.Validation
import LegacyAudit.Config.Yaml
import LegacyAudit.FileTree.Walk

/-!
# Complaints

## Main definitions

- `Complaint` - what a command has to say apart from its output, with `Complaint.message`
-/

namespace LegacyAudit

open LegacyAudit.Text

inductive ConfigFileError where
  | file (error : FileError)
  | content (error : ConfigReadError)
  deriving DecidableEq, Repr

def ConfigFileError.message : ConfigFileError → String
  | file error => error.message
  | content error => error.message

/-- What a command has to say apart from its output. -/
inductive Complaint where
  | badConfigFile (path : String) (error : ConfigFileError)
  | badConfig (fault : ConfigFault)
  | noAccess (path : String) (error : FileError)
  | noFiles
  | brokenWalk (error : WalkError)
  | outputExists (path : String)
  | noDirectory (error : FileError)
  | noOutput (error : FileError)
  deriving DecidableEq, Repr

def Complaint.configFileLead (path : String) : String :=
  "Error: cannot parse " ++ path ++ ": "

def Complaint.message : Complaint → String
  | badConfigFile path error => configFileLead path ++ error.message ++ "\n"
  | badConfig fault => "Error: invalid config: " ++ fault.message ++ "\n"
  | noAccess path error =>
    "Error: cannot access path " ++ quoted path ++ ": " ++ error.message ++ "\n"
  | noFiles => "Warning: no files to analyze\n"
  | brokenWalk error => "Error: " ++ error.message ++ "\n"
  | outputExists path =>
    "Error: file already exists: " ++ path ++
      "\nRemove it or use --output to specify a different path\n"
  | noDirectory error => "Error: failed to create directory: " ++ error.message ++ "\n"
  | noOutput error => "Error: failed to write config: " ++ error.message ++ "\n"

end LegacyAudit
