import LegacyAudit.Config.Paths
import LegacyAudit.FileTree.Walk

/-!
# The files of a project

A project is everything below its directory except what is hidden, brought in from elsewhere or
built, what the configuration excludes, and what is too large.

## Main definitions

- `Config.keeps` - whether a walk goes on at a path
- `FileTree.collect` - the files of a project
-/

namespace LegacyAudit

/-- The names of directories that hold the work of others, or what can be built again. -/
def foreignNames : List String :=
  ["vendor", "node_modules", "target", "__pycache__"]

/-- Whether a directory of that name is passed over. -/
def isPassedOver (name : String) : Bool :=
  name.toList.head? = some '.' || foreignNames.contains name

/-- Whether a walk goes on at a path. The directory where it starts may have any name. -/
def Config.keeps (config : Config) (visit : Visit) : Bool :=
  !(decide (0 < visit.depth) && visit.isDirectory && isPassedOver visit.name) &&
    !config.isExcluded visit.path

def Config.admits (config : Config) (file : FoundFile) : Bool :=
  decide (file.content.length ≤ config.maxFileBytes.toNat)

/-- The files of the project at a path, in order. -/
def FileTree.collect (tree : FileTree) (config : Config) (here : Location) (path : String) :
    Except WalkError (List FoundFile) := do
  let found ← tree.walk config.keeps here path
  return found.filter config.admits

end LegacyAudit
