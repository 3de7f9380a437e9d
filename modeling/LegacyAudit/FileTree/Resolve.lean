import LegacyAudit.FileTree.Basic

/-!
# Finding paths

A path is followed step by step from a directory. Links on the way are replaced by the paths they
refer to, and so is a link at the end if it is to be followed.

## Main definitions

- `Step`, `Step.ofPath` - the steps of a path
- `Place` - where a path leads
- `FileTree.resolve` - follows a path
- `FileTree.locate`, `FileTree.canonical` - follow a path to something that is there
-/

namespace LegacyAudit

open LegacyAudit.Text

inductive Step where
  | root
  | stay
  | up
  | name (text : String)
  /-- A slash at the end, in front of which a directory has to be. -/
  | slash
  deriving DecidableEq, Repr

namespace Step

/-- The step written by the text between two slashes, if it is one. -/
def ofText? (text : List Char) : Option Step :=
  if text = [] then none
  else if text = ['.'] then some .stay
  else if text = ['.', '.'] then some .up
  else some (.name (String.ofList text))

def ofPath (path : String) : List Step :=
  let text := path.toList
  (if text.head? = some '/' then [.root] else []) ++ (splitAtEvery '/' text).filterMap ofText? ++
    (if text.getLast? = some '/' then [.slash] else [])

end Step

inductive Place where
  /-- To something at a location. -/
  | present (location : Location)
  /-- To a name that a directory does not have; the path may end in a slash. -/
  | absent (directory : Location) (name : String) (slashed : Bool)
  deriving DecidableEq, Repr

def Place.location : Place → Except FileError Location
  | .present location => .ok location
  | .absent .. => .error .notFound

namespace FileTree

def linkLimit : Nat := 40

def nameLimit : Nat := 255

def pathLimit : Nat := 4095

/-- Follows steps from a location, and at most `links` links. A link at the end is followed if
`last` holds. -/
def resolveSteps (tree : FileTree) (last : Bool) (links : Nat) (here : Location)
    (steps : List Step) : Except FileError Place :=
  match steps with
  | [] => .ok (.present here)
  | .root :: rest => resolveSteps tree last links [] rest
  | step :: rest =>
    if !tree.isDirectory here then .error .notDirectory
    else
      match step with
      | .up => resolveSteps tree last links here.dropLast rest
      | .name name =>
        if nameLimit < name.utf8ByteSize then .error .nameTooLong
        else
          match tree.entry? (here ++ [name]) with
          | none =>
            -- Only the last name may be missing, for then it can be made.
            if rest.all (· = .slash) then .ok (.absent here name (!rest.isEmpty))
            else .error .notFound
          | some (.link target) =>
            -- In front of a slash a link is followed in any case.
            if rest.isEmpty && !last then .ok (.present (here ++ [name]))
            else
              match links with
              | 0 => .error .tooManyLinks
              | links + 1 => resolveSteps tree last links here (Step.ofPath target ++ rest)
          | some _ => resolveSteps tree last links (here ++ [name]) rest
      | _ => resolveSteps tree last links here rest
termination_by (links, steps.length)

/-- Follows a path of any length from a directory. A link at the end is followed if `last` holds. -/
def resolvePath (tree : FileTree) (last : Bool) (here : Location) (path : String) :
    Except FileError Place :=
  if path.toList.contains '\x00' then .error .zeroInPath
  else if path.toList = [] then .error .notFound
  else resolveSteps tree last linkLimit here (Step.ofPath path)

/-- Follows a path as a whole, which must not be too long for that. -/
def resolve (tree : FileTree) (last : Bool) (here : Location) (path : String) :
    Except FileError Place :=
  if !path.toList.contains '\x00' && decide (pathLimit < path.utf8ByteSize) then
    .error .nameTooLong
  else resolvePath tree last here path

/-- Follows a path name by name, and says where that leads without any link. -/
def canonical (tree : FileTree) (here : Location) (path : String) : Except FileError Location := do
  (← tree.resolvePath true here path).location

/-- Follows a path to something that is there, and says where that is without any link. -/
def locate (tree : FileTree) (here : Location) (path : String) : Except FileError Location := do
  (← tree.resolve true here path).location

def pathExists (tree : FileTree) (here : Location) (path : String) : Bool :=
  (tree.locate here path).isOk

def pathIsFile (tree : FileTree) (here : Location) (path : String) : Bool :=
  match tree.locate here path with
  | .ok location => !tree.isDirectory location
  | .error _ => false

def pathIsDirectory (tree : FileTree) (here : Location) (path : String) : Bool :=
  match tree.locate here path with
  | .ok location => tree.isDirectory location
  | .error _ => false

def read (tree : FileTree) (here : Location) (path : String) : Except FileError (List UInt8) := do
  let location ← tree.locate here path
  match tree.entry? location with
  | some (.file content) => return content
  | _ => throw .isDirectory

/-- Writes a file, which is made if it is not there. -/
def write (tree : FileTree) (here : Location) (path : String) (content : List UInt8) :
    Except FileError FileTree := do
  match ← tree.resolve true here path with
  | .present location =>
    if tree.isDirectory location then throw .isDirectory
    else return tree.put location (.file content)
  | .absent directory name slashed =>
    if slashed then throw .isDirectory
    else return tree.put (directory ++ [name]) (.file content)

def makeDirectory (tree : FileTree) (here : Location) (path : String) :
    Except FileError FileTree := do
  match ← tree.resolve false here path with
  | .present _ => throw .alreadyExists
  | .absent directory name _ => return tree.put (directory ++ [name]) .directory

/-- Makes a directory unless the path leads to one. -/
def ensureDirectory (tree : FileTree) (here : Location) (path : String) :
    Except FileError FileTree :=
  match tree.makeDirectory here path with
  | .ok tree => .ok tree
  | .error e => if tree.pathIsDirectory here path then .ok tree else .error e

/-- Makes a directory and, where one above it is missing, first those above; `above` has their
paths, the nearest first. -/
def makeDirectories (tree : FileTree) (here : Location) (path : String) :
    (above : List String) → Except FileError FileTree
  | [] => tree.ensureDirectory here path
  | next :: above =>
    match tree.makeDirectory here path with
    | .error .notFound => do
      let tree ← tree.makeDirectories here next above
      tree.ensureDirectory here path
    | _ => tree.ensureDirectory here path

end FileTree

end LegacyAudit
