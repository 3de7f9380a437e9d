import LegacyAudit.Path

/-!
# Trees of files

A tree of files is kept as the list of its entries by location. The root is always a directory.

## Main definitions

- `Location`, `FileEntry` - where something is and what it is
- `FileTree` - the entries, with `FileTree.entry?` and `FileTree.names`
- `FileTree.put` - adds an entry
- `FileError` - why a path cannot be used, with `FileError.message`
-/

namespace LegacyAudit

/-- A place in a tree: the names on the way from the root. -/
abbrev Location := List String

inductive FileEntry where
  | file (content : List UInt8)
  | directory
  /-- A symbolic link with the path it refers to. -/
  | link (target : String)
  deriving DecidableEq, Repr

structure FileTree where
  entries : List (Location × FileEntry) := []
  deriving Repr

namespace FileTree

/-- What is at a location, links not being followed. -/
def entry? (tree : FileTree) (location : Location) : Option FileEntry :=
  if location = [] then some .directory else tree.entries.lookup location

def isDirectory (tree : FileTree) (location : Location) : Bool :=
  tree.entry? location = some .directory

def nameIn? (directory location : Location) : Option String :=
  if location.dropLast = directory then location.getLast? else none

/-- The names in a directory, sorted. -/
def names (tree : FileTree) (directory : Location) : List String :=
  (tree.entries.filterMap fun (location, _) => nameIn? directory location).mergeSort
    fun a b => decide (a ≤ b)

/-- Adds an entry; what was at its location is lost. -/
def put (tree : FileTree) (location : Location) (entry : FileEntry) : FileTree :=
  ⟨tree.entries.filter (·.1 ≠ location) ++ [(location, entry)]⟩

/-- Adds the directories above a location, as far as they are missing. -/
def putParents (tree : FileTree) : Location → FileTree
  | [] => tree
  | location@(_ :: _) =>
    let above := location.dropLast
    let tree := putParents tree above
    if tree.entry? above = none then tree.put above .directory else tree
termination_by location => location.length

/-- Adds an entry together with the directories above it. -/
def putDeep (tree : FileTree) (location : Location) (entry : FileEntry) : FileTree :=
  (tree.putParents location).put location entry

def pathOf (location : Location) : String :=
  "/" ++ "/".intercalate location

end FileTree

inductive FileError where
  | notFound
  | alreadyExists
  | notDirectory
  | isDirectory
  | nameTooLong
  | tooManyLinks
  /-- The path holds a character that no path can hold. -/
  | zeroInPath
  deriving DecidableEq, Repr

def FileError.message : FileError → String
  | notFound => "No such file or directory (os error 2)"
  | alreadyExists => "File exists (os error 17)"
  | notDirectory => "Not a directory (os error 20)"
  | isDirectory => "Is a directory (os error 21)"
  | nameTooLong => "File name too long (os error 36)"
  | tooManyLinks => "Too many levels of symbolic links (os error 40)"
  | zeroInPath => "file name contained an unexpected NUL byte"

end LegacyAudit
