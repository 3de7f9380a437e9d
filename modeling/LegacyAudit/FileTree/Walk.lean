import LegacyAudit.FileTree.Resolve

/-!
# Walking through a tree

A walk visits a path and everything below it, names in order, and follows links. A link that leads
nowhere, or back to a directory on the way, ends the walk.

## Main definitions

- `Visit` - a stop of a walk
- `WalkError` - why a walk ends early, with `WalkError.message`
- `FileTree.walk` - the files that a walk finds

## Design notes

A directory is entered through a link only if it is not on the way already. The number of links on
the way is therefore bounded by the number of directories, and so is the number of steps between
two of them, which bounds the depth of a walk.
-/

namespace LegacyAudit

/-- A stop of a walk. -/
structure Visit where
  depth : Nat
  path : String
  name : String
  isDirectory : Bool
  deriving DecidableEq, Repr

structure FoundFile where
  path : String
  content : List UInt8
  deriving DecidableEq, Repr

inductive WalkError where
  | unreachable (path : String) (error : FileError)
  /-- A link leads back to a directory on the way. -/
  | loop (path ancestor : String)
  deriving DecidableEq, Repr

def WalkError.message : WalkError → String
  | unreachable path error => "IO error for operation on " ++ path ++ ": " ++ error.message
  | loop path ancestor =>
    "File system loop found: " ++ path ++ " points to an ancestor " ++ ancestor

structure Ancestor where
  location : Location
  path : String
  deriving DecidableEq, Repr

namespace FileTree

/-- Where an entry of a directory leads, which is not back to one of the ancestors; these come
nearest first. -/
def follow (tree : FileTree) (ancestors : List Ancestor) (directory : Location)
    (name path : String) : Except WalkError Location :=
  match tree.entry? (directory ++ [name]) with
  | some (.link _) =>
    match tree.locate directory name with
    | .error e => .error (.unreachable path e)
    | .ok location =>
      match ancestors.find? (·.location = location) with
      | some ancestor => .error (.loop path ancestor.path)
      | none => .ok location
  -- Only links lead upwards, so nothing else is compared with the ancestors.
  | _ => .ok (directory ++ [name])

/-- Walks from a location, which was reached by a path, to at most `fuel` levels below. -/
def walkFrom (tree : FileTree) (keep : Visit → Bool) :
    (fuel depth : Nat) → (ancestors : List Ancestor) → (location : Location) →
      (path name : String) → Except WalkError (List FoundFile)
  | 0, _, _, _, _, _ => .ok []
  | fuel + 1, depth, ancestors, location, path, name =>
    match tree.entry? location with
    | some .directory =>
      if !keep ⟨depth, path, name, true⟩ then .ok []
      else do
        let ancestors := ⟨location, path⟩ :: ancestors
        let found ← (tree.names location).mapM fun name => do
          let path := Path.join path name
          let target ← tree.follow ancestors location name path
          walkFrom tree keep fuel (depth + 1) ancestors target path name
        return found.flatten
    | some (.file content) =>
      if keep ⟨depth, path, name, false⟩ then .ok [⟨path, content⟩] else .ok []
    -- No link comes here: links are followed before what they lead to is walked.
    | _ => .ok []

def depthBound (tree : FileTree) : Nat :=
  (tree.entries.length + 2) * (tree.entries.length + 2)

/-- The files that a walk from a path finds, in order. Directories that `keep` does not hold for are
not entered, and files that it does not hold for are left out. -/
def walk (tree : FileTree) (keep : Visit → Bool) (here : Location) (path : String) :
    Except WalkError (List FoundFile) :=
  match tree.locate here path with
  | .error e => .error (.unreachable path e)
  | .ok location =>
    let name := (Path.fileName? path).map String.ofList
    tree.walkFrom keep tree.depthBound 0 [] location path (name.getD path)

end FileTree

end LegacyAudit
