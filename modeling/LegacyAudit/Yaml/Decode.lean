import LegacyAudit.Text.Utf8
import LegacyAudit.Yaml.Node
import LegacyAudit.Yaml.Scalar.Meaning

/-!
# From YAML nodes to typed values

A reader takes the kind of value that its place asks for, so the same scalar can be a string in one
place and a number in another. A place that is left empty is an empty list or a record without
members.

## Main definitions

- `NodeReader` - functions that read typed values, and follow aliases only so often
- `readText`, `readNumber`, `readList`, `readChoice` - parts of records
- `readMembers` - the members of a record by key
- `readMember`, `requireMember` - one member
- `Document.read` - the value of a whole document
-/

namespace LegacyAudit.Yaml

open LegacyAudit.Text

/-- Reads a part of a document. The state is the number of aliases that may still be followed. -/
abbrev Reading := StateT Nat (Except Fault)

/-- A function that reads values of type `α` out of a document. -/
abbrev NodeReader (α : Type) := Document → Node → Reading α

def countAlias : Reading Unit := do
  match ← get with
  | 0 => throw .repetition
  | left + 1 => set left

def behindAlias {α : Type} (read : NodeReader α) : NodeReader α := fun document node => do
  match node with
  | .aliasTo number =>
    countAlias
    match document.resolve? number with
    | some node => read document node
    | none => throw .value
  | node => read document node

/-- Whether a node is a place that is left empty. -/
def Node.isVacant : Node → Bool
  | .scalar _ _ .plain text => text.isEmpty
  | _ => false

def readText : NodeReader String :=
  behindAlias fun _ node =>
    match node with
    | .scalar _ _ _ text => return text
    | _ => throw .value

def readEach {α : Type} (read : NodeReader α) (document : Document) :
    List Node → Reading (List α)
  | [] => return []
  | node :: rest => do
    let x ← read document node
    let xs ← readEach read document rest
    return x :: xs

def readList {α : Type} (read : NodeReader α) : NodeReader (List α) :=
  behindAlias fun document node =>
    match node with
    | .sequence _ _ items => readEach read document items
    | node => if node.isVacant then return [] else throw .value

def integerTag : List UInt8 := encode "tag:yaml.org,2002:int"

/-- Whether a scalar may be a number: a plain one, or a literal block that is tagged as a number. -/
def mayBeNumber (tag : Option (List UInt8)) : ScalarStyle → Bool
  | .plain => true
  | .literal => tag == some integerTag
  | _ => false

def readNumber (bound : Nat) : NodeReader Nat :=
  behindAlias fun _ node =>
    match node with
    | .scalar _ tag style text =>
      match if mayBeNumber tag style then naturalValue? text.toList else none with
      | some n => if n < bound then return n else throw .value
      | none => throw .value
    | _ => throw .value

def readByte : NodeReader UInt8 := fun document node =>
  UInt8.ofNat <$> readNumber UInt8.size document node

def readWord64 : NodeReader UInt64 := fun document node =>
  UInt64.ofNat <$> readNumber UInt64.size document node

def isNothing (style : ScalarStyle) (text : String) : Bool :=
  style = .plain && (text.isEmpty || nullNames.contains text)

/-- The name that a tag of the document's own gives. -/
def tagName? : Option (List UInt8) → Option String
  | some (33 :: name) => (decode name).toOption
  | _ => none

/-- Reads a name from a closed list: the text of a scalar, or the name of its tag if the scalar is
empty but for that. -/
def readChoice {α : Type} (choices : List (String × α)) : NodeReader α :=
  behindAlias fun _ node =>
    match node with
    | .scalar _ tag style text =>
      let name? := match tagName? tag with
        | some name => if isNothing style text then some name else none
        | none => some text
      match name?.bind fun name => choices.lookup name with
      | some x => return x
      | none => throw .value
    | _ => throw .value

abbrev Members := List (String × Node)

def readKeys (document : Document) : List (Node × Node) → Reading Members
  | [] => return []
  | (key, value) :: rest => do
    let name ← readText document key
    let members ← readKeys document rest
    return (name, value) :: members

/-- Whether one of the names is the key of two members. -/
def hasRepeated (names : List String) (members : Members) : Bool :=
  names.any fun name => 1 < (members.map (·.1)).count name

/-- Reads the members of a record that knows the given keys. Other keys are passed over. -/
def readMembers (known : List String) : NodeReader Members :=
  behindAlias fun document node =>
    match node with
    | .mapping _ _ entries => do
      let members ← readKeys document entries
      if hasRepeated known members then throw .value
      return members
    | node => if node.isVacant then return [] else throw .value

/-- Reads a member, which is `value` if it is absent. -/
def readMember {α : Type} (document : Document) (members : Members) (name : String)
    (read : NodeReader α) (value : α) : Reading α :=
  match members.lookup name with
  | some node => read document node
  | none => return value

def requireMember {α : Type} (document : Document) (members : Members) (name : String)
    (read : NodeReader α) : Reading α :=
  match members.lookup name with
  | some node => read document node
  | none => throw .value

/-- The number of aliases that may be followed for each event of a document. A few short lists of
aliases could otherwise stand for a very long text. -/
def aliasesPerEvent : Nat := 100

/-- Reads the tree of a document; `value` is what a text without a document stands for. -/
def Document.read {α : Type} (document : Document) (read : NodeReader α) (value : α) :
    Except Fault α :=
  match document.root with
  | some root => (read document root).run' (aliasesPerEvent * document.size)
  | none => .ok value

end LegacyAudit.Yaml
