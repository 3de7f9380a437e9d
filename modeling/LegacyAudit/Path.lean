import LegacyAudit.Text.Split

/-!
# Paths

A path is text with components separated by slashes. Repeated and trailing slashes do not count,
nor does a `.` behind the first component; a `..` is a component of its own.

## Main definitions

- `Path.components` - the components of a path
- `Path.fileName?` - its last component, if that is a name
- `Path.stem`, `Path.extension?` - the two parts of a name around its last dot
- `Path.above`, `Path.join`, `Path.beneath?` - going up and down
-/

namespace LegacyAudit

inductive Component where
  | root
  | current
  | parent
  | name (text : List Char)
  deriving DecidableEq, Repr

namespace Path

open LegacyAudit.Text

/-- The component written by the text between two slashes, if it is one. A dot counts only where
`leading` holds. -/
def component? (leading : Bool) (text : List Char) : Option Component :=
  if text = [] then none
  else if text = ['.'] then (if leading then some .current else none)
  else if text = ['.', '.'] then some .parent
  else some (.name text)

def componentsOf (path : List Char) : List Component :=
  match splitAtEvery '/' path with
  | [] => []
  | first :: rest =>
    (if path.head? = some '/' then [.root] else (component? true first).toList) ++
      rest.filterMap (component? false)

def components (path : String) : List Component :=
  componentsOf path.toList

/-- The last component, if it is a name. -/
def lastName? (components : List Component) : Option (List Char) :=
  match components.getLast? with
  | some (.name text) => some text
  | _ => none

def fileName? (path : String) : Option (List Char) :=
  lastName? (components path)

/-- The part of a name in front of its last dot, if it has a dot. -/
def beforeLastDot? (name : List Char) : Option (List Char) :=
  match name.reverse.dropWhile (· ≠ '.') with
  | [] => none
  | _ :: before => some before.reverse

/-- The part of a name behind its last dot; the whole name if it has none. -/
def afterLastDot (name : List Char) : List Char :=
  (name.reverse.takeWhile (· ≠ '.')).reverse

/-- The name without its extension. A dot at the front starts no extension. -/
def stem (name : List Char) : List Char :=
  match beforeLastDot? name with
  | none | some [] => name
  | some before => before

/-- The extension of a name: what follows its last dot, unless that dot is at the front. -/
def extension? (name : List Char) : Option (List Char) :=
  match beforeLastDot? name with
  | none | some [] => none
  | some _ => some (afterLastDot name)

def Component.text : Component → List Char
  | .root => ['/']
  | .current => ['.']
  | .parent => ['.', '.']
  | .name text => text

def ofComponents (components : List Component) : String :=
  match components with
  | .root :: rest => String.ofList ('/' :: ['/'].intercalate (rest.map Component.text))
  | components => String.ofList (['/'].intercalate (components.map Component.text))

/-- The paths above a path, the nearest first. The empty path is not among them. -/
def above (path : String) : List String :=
  let components := components path
  (List.range components.length).reverse.filterMap fun count =>
    if count = 0 then none else some (ofComponents (components.take count))

/-- What remains of a path without the slashes and the `.` at its front. -/
def withoutLead : List Char → List Char
  | '/' :: rest => withoutLead rest
  | '.' :: '/' :: rest => withoutLead rest
  | ['.'] => []
  | text => text

/-- The path `path` seen from the directory `base` above it, if it begins with `base`. -/
def beneath? (base path : String) : Option String :=
  (withoutPrefix? base.toList path.toList).map fun rest => String.ofList (withoutLead rest)

/-- The path `name` seen from the directory `path`. An absolute `name` stands for itself. -/
def join (path name : String) : String :=
  if name.toList.head? = some '/' then name
  else if path.toList = [] then name
  else if path.toList.getLast? = some '/' then path ++ name
  else path ++ "/" ++ name

end Path

end LegacyAudit
