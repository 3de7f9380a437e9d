import LegacyAudit.Yaml.Event
import LegacyAudit.Yaml.Token.Reader

/-!
# From events to nodes

A document is a tree of nodes. Anchors are numbered while the document is read: a name that is new
or is used again gets the number of names seen so far. An alias stands for the last node that has
the number which its name had at that point.

## Main definitions

- `Node` - scalars, sequences, mappings and aliases
- `numberAnchors` - puts numbers for the names of anchors
- `Node.numberedOnto` - the nodes with numbers
- `Document` - the tree of a text, with `Document.resolve?` for aliases
- `Document.ofText` - reads a text with at most one document
-/

namespace LegacyAudit.Yaml

inductive Node where
  | aliasTo (number : Nat)
  | scalar (anchor : Option Nat) (tag : Option (List UInt8)) (style : ScalarStyle) (text : String)
  | sequence (anchor : Option Nat) (tag : Option (List UInt8)) (items : List Node)
  | mapping (anchor : Option Nat) (tag : Option (List UInt8)) (entries : List (Node × Node))
  deriving Repr, Inhabited

/-- The numbers of the anchor names seen so far. -/
abbrev AnchorNames := List (List Char × Nat)

/-- The number of an anchor that comes next, and the numbers after it. -/
def declareAnchor (names : AnchorNames) : Option (List Char) → Option Nat × AnchorNames
  | none => (none, names)
  -- A name that comes again stands for the later anchor from then on.
  | some name => (some names.length, (name, names.length) :: names.filter (·.1 ≠ name))

/-- A collection that is not yet complete, with its parts newest first. -/
inductive OpenNode where
  | sequence (anchor : Option Nat) (tag : Option (List UInt8)) (items : List Node)
  /-- A mapping, and the key whose value is still to come. -/
  | mapping (anchor : Option Nat) (tag : Option (List UInt8)) (entries : List (Node × Node))
      (key : Option Node)
  deriving Repr, Inhabited

structure NodeBuilder where
  names : AnchorNames := []
  /-- The collections around the next node, innermost first. -/
  opened : List OpenNode := []
  root : Option Node := none
  deriving Repr, Inhabited

namespace NodeBuilder

def place (b : NodeBuilder) (node : Node) : NodeBuilder :=
  match b.opened with
  | [] => { b with root := some node }
  | .sequence anchor tag items :: rest =>
    { b with opened := .sequence anchor tag (node :: items) :: rest }
  | .mapping anchor tag entries none :: rest =>
    { b with opened := .mapping anchor tag entries (some node) :: rest }
  | .mapping anchor tag entries (some key) :: rest =>
    { b with opened := .mapping anchor tag ((key, node) :: entries) none :: rest }

def close (b : NodeBuilder) : NodeBuilder :=
  match b.opened with
  | .sequence anchor tag items :: rest =>
    place { b with opened := rest } (.sequence anchor tag items.reverse)
  | .mapping anchor tag entries _ :: rest =>
    place { b with opened := rest } (.mapping anchor tag entries.reverse)
  | [] => b

def step (b : NodeBuilder) : Event → Except Fault NodeBuilder
  | .documentStart | .documentEnd => .ok b
  | .aliasTo name =>
    match b.names.find? (·.1 = name) with
    | some (_, number) => .ok (b.place (.aliasTo number))
    | none => .error .unknownAlias
  | .scalar anchor tag style text =>
    let (anchor, names) := declareAnchor b.names anchor
    .ok (place { b with names } (.scalar anchor tag style (String.ofList text)))
  | .sequenceStart anchor tag =>
    let (anchor, names) := declareAnchor b.names anchor
    .ok { b with names, opened := .sequence anchor tag [] :: b.opened }
  | .mappingStart anchor tag =>
    let (anchor, names) := declareAnchor b.names anchor
    .ok { b with names, opened := .mapping anchor tag [] none :: b.opened }
  | .sequenceEnd | .mappingEnd => .ok b.close

end NodeBuilder

/-- The nodes with numbers found so far, after a node that may have one. -/
def addNumbered (found : List (Nat × Node)) (anchor : Option Nat) (node : Node) :
    List (Nat × Node) :=
  match anchor with
  | some number => (number, node) :: found
  | none => found

mutual

/-- The nodes with numbers in a node, in front of those found so far: the last one comes first, and
a node counts as earlier than its parts. -/
def Node.numberedOnto (found : List (Nat × Node)) : Node → List (Nat × Node)
  | .aliasTo _ => found
  | .scalar anchor tag style text => addNumbered found anchor (.scalar anchor tag style text)
  | .sequence anchor tag items =>
    numberedItemsOnto (addNumbered found anchor (.sequence anchor tag items)) items
  | .mapping anchor tag entries =>
    numberedEntriesOnto (addNumbered found anchor (.mapping anchor tag entries)) entries

def numberedItemsOnto (found : List (Nat × Node)) : List Node → List (Nat × Node)
  | [] => found
  | node :: rest => numberedItemsOnto (node.numberedOnto found) rest

def numberedEntriesOnto (found : List (Nat × Node)) : List (Node × Node) → List (Nat × Node)
  | [] => found
  | (key, value) :: rest =>
    numberedEntriesOnto (value.numberedOnto (key.numberedOnto found)) rest

end

structure Document where
  /-- The whole tree; none if the text has no document. -/
  root : Option Node
  /-- The nodes with numbers, the last one first. -/
  numbered : List (Nat × Node)
  /-- The number of events that make up the tree. -/
  size : Nat
  deriving Repr, Inhabited

namespace Document

/-- The node that an alias with this number stands for. -/
def resolve? (d : Document) (number : Nat) : Option Node :=
  d.numbered.lookup number

def isPart : Event → Bool
  | .documentStart | .documentEnd => false
  | _ => true

/-- The document of a list of events. There must not be more than one. -/
def ofEvents (events : List Event) : Except Fault Document := do
  if 1 < events.count .documentStart then throw .documents
  let b ← events.foldlM NodeBuilder.step {}
  let numbered := match b.root with
    | some root => root.numberedOnto []
    | none => []
  return ⟨b.root, numbered, events.countP isPart⟩

def ofText (text : String) : Except Fault Document := do
  let tokens ← Token.ofText text.toList
  let events ← Event.ofTokens tokens
  ofEvents events

end Document

end LegacyAudit.Yaml
