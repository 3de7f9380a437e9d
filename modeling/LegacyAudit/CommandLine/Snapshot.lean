import LegacyAudit.CommandLine.Run
import LegacyAudit.Json.Reader

/-!
# Snapshots

The program does not look at the disk. It is given a snapshot: the files below a directory, the
syntax trees of those that have a parser, the time, and the identifier of the next job. Its answer
names the files that it would write.

## Main definitions

- `Snapshot` - the parts of a snapshot, with `Snapshot.decode`
- `Snapshot.workplace` - what a command works on
- `Outcome.toJson` - the answer
-/

namespace LegacyAudit

structure SnapshotFile where
  path : String
  content : List UInt8
  syntaxTree : Option SyntaxTree

structure SnapshotLink where
  path : String
  target : String

/-- The files below a directory, and what else a run depends on. Paths are relative to the
directory. -/
structure Snapshot where
  directory : String
  directories : List String
  files : List SnapshotFile
  links : List SnapshotLink
  jobId : JobId
  now : Timestamp

/-- Reads a node of a syntax tree: its depth, its kind, its range of bytes and its rows. -/
def decodeNode : Decoder (Nat × String × Span)
  | .array [depth, kind, startByte, endByte, startRow, endRow] => do
    let depth ← decodeSize depth
    let kind ← decodeString kind
    let startByte ← decodeSize startByte
    let endByte ← decodeSize endByte
    let startRow ← decodeSize startRow
    let endRow ← decodeSize endRow
    return (depth.toNat, kind, ⟨startByte.toNat, endByte.toNat, startRow, endRow⟩)
  | v => .error (.invalidType v.found "a node of six parts")

/-- Reads a syntax tree, which is written as its nodes in preorder. -/
def decodeTree : Decoder SyntaxTree := fun v => do
  match SyntaxTree.ofPreorder (← decodeList decodeNode v) with
  | some tree => return tree
  | none => throw (.unreadable "the nodes make no tree")

/-- Reads the content of a file: a text, or a list of bytes. -/
def decodeContent : Decoder (List UInt8)
  | .string text => .ok (Text.encode text)
  | v => decodeList decodeByte v

namespace SnapshotFile

def pathField : Field String :=
  .required "path" decodeString

def contentField : Field (List UInt8) :=
  .required "content" decodeContent

def treeField : Field (Option SyntaxTree) :=
  .nullable "tree" decodeTree

def decode : Decoder SnapshotFile :=
  decodeRecord "SnapshotFile" [pathField.toCheck, contentField.toCheck, treeField.toCheck]
    fun members => do
      let path ← pathField.get members
      let content ← contentField.get members
      let syntaxTree ← treeField.get members
      return { path, content, syntaxTree }

end SnapshotFile

namespace SnapshotLink

def pathField : Field String :=
  .required "path" decodeString

def targetField : Field String :=
  .required "target" decodeString

def decode : Decoder SnapshotLink :=
  decodeRecord "SnapshotLink" [pathField.toCheck, targetField.toCheck] fun members => do
    let path ← pathField.get members
    let target ← targetField.get members
    return { path, target }

end SnapshotLink

namespace Snapshot

def directoryField : Field String :=
  .required "directory" decodeString

/-- The directories below it; those above a file need not be named. -/
def directoriesField : Field (List String) :=
  .default "directories" (decodeList decodeString) []

def filesField : Field (List SnapshotFile) :=
  .default "files" (decodeList SnapshotFile.decode) []

def linksField : Field (List SnapshotLink) :=
  .default "links" (decodeList SnapshotLink.decode) []

def jobIdField : Field JobId :=
  .required "job_id" JobId.decode

def nowField : Field Timestamp :=
  .required "now" Timestamp.decode

def decode : Decoder Snapshot :=
  decodeRecord "Snapshot"
    [directoryField.toCheck, directoriesField.toCheck, filesField.toCheck, linksField.toCheck,
      jobIdField.toCheck, nowField.toCheck]
    fun members => do
      let directory ← directoryField.get members
      let directories ← directoriesField.get members
      let files ← filesField.get members
      let links ← linksField.get members
      let jobId ← jobIdField.get members
      let now ← nowField.get members
      return { directory, directories, files, links, jobId, now }

/-- The location of a path without steps upwards. -/
def locationOf (path : String) : Location :=
  (Path.components path).filterMap fun
    | .name text => some (String.ofList text)
    | _ => none

def here (s : Snapshot) : Location :=
  locationOf s.directory

def placed (s : Snapshot) (path : String) : Location :=
  s.here ++ locationOf path

def tree (s : Snapshot) : FileTree :=
  let tree := ({} : FileTree).putDeep s.here .directory
  let tree := s.directories.foldl (fun t path => t.putDeep (s.placed path) .directory) tree
  let tree := s.files.foldl (fun t file => t.putDeep (s.placed file.path) (.file file.content)) tree
  s.links.foldl (fun t link => t.putDeep (s.placed link.path) (.link link.target)) tree

/-- The syntax trees of the files. Files of one language and content share a tree. -/
def syntaxTrees (s : Snapshot) : TreeSource := fun language content =>
  let found := s.files.find? fun file =>
    file.syntaxTree.isSome && Language.detect file.path = language && file.content == content
  match found.bind (·.syntaxTree) with
  | some tree => .ok tree
  | none => .error ("failed to parse " ++ language.name ++ " source")

def workplace (s : Snapshot) : Workplace where
  tree := s.tree
  here := s.here
  syntaxTrees := s.syntaxTrees
  jobId := s.jobId
  now := s.now

def parse? (text : String) : Option Snapshot := do
  (decode (← Json.parse? text)).toOption

end Snapshot

/-- The files that are in one tree and not in another, with their content as text. -/
def FileTree.added (before after : FileTree) : List (String × Json) :=
  after.entries.filterMap fun (location, entry) =>
    match entry, before.entry? location with
    | .file content, none => some (pathOf location, .string (Text.decodeOrEmpty content))
    | _, _ => none

/-- The answer to a run: how it ended and what it would write. -/
def Outcome.toJson (before : FileTree) (o : Outcome) : Json :=
  .object [("exit", .nat o.exitCode), ("output", .string o.output),
    ("complaints", .strings (o.complaints.map (·.message))),
    ("files", .object (FileTree.added before o.tree))]

end LegacyAudit
