import LegacyAudit.Yaml.Fault
import LegacyAudit.Yaml.Token.Basic

/-!
# From tokens to events

The grammar of YAML, as a machine that looks at the next token and knows what it expects. A value
that is left out becomes an empty plain scalar.

## Main definitions

- `Event` - the parts of a document in order
- `Expected` - what the machine expects
- `EventReader.step` - one move of the machine
- `Event.ofTokens` - all events of a list of tokens

## Design notes

Every move takes a token, or leaves for an expectation that takes one, so the number of moves is
bounded by a multiple of the number of tokens.
-/

namespace LegacyAudit.Yaml

/-- A part of a document. Anchors are names, tags are bytes. -/
inductive Event where
  | documentStart
  | documentEnd
  | aliasTo (name : List Char)
  | scalar (anchor : Option (List Char)) (tag : Option (List UInt8)) (style : ScalarStyle)
      (text : List Char)
  | sequenceStart (anchor : Option (List Char)) (tag : Option (List UInt8))
  | sequenceEnd
  | mappingStart (anchor : Option (List Char)) (tag : Option (List UInt8))
  | mappingEnd
  deriving DecidableEq, Repr, Inhabited

inductive Expected where
  /-- A document; only the first one may begin without a mark. -/
  | document (first : Bool)
  | documentContent
  | documentEnd
  | blockNode
  | blockSequenceFirst
  | blockSequenceEntry
  /-- An item of a sequence that is not indented against its key. -/
  | levelSequenceEntry
  | blockMappingFirst
  | blockMappingKey
  | blockMappingValue
  | flowSequenceFirst
  | flowSequenceEntry
  /-- The key of a pair that stands for a mapping inside a flow sequence. -/
  | flowPairKey
  | flowPairValue
  | flowPairEnd
  | flowMappingFirst
  | flowMappingKey
  | flowMappingValue
  | flowMappingEmptyValue
  | nothing
  deriving DecidableEq, Repr, Inhabited

structure EventReader where
  tokens : List Token
  expected : Expected := .document true
  /-- What is expected after what is expected now. -/
  later : List Expected := []
  /-- The tag handles of the document with what they stand for. -/
  handles : List (List Char × List UInt8) := []
  /-- The events so far, newest first. -/
  events : List Event := []
  deriving Repr, Inhabited

namespace EventReader

def peek (r : EventReader) : Token :=
  r.tokens.headD .streamEnd

def advance (r : EventReader) : EventReader :=
  { r with tokens := r.tokens.drop 1 }

def emit (r : EventReader) (event : Event) : EventReader :=
  { r with events := event :: r.events }

def expect (r : EventReader) (expected : Expected) : EventReader :=
  { r with expected }

def thenExpect (r : EventReader) (expected : Expected) : EventReader :=
  { r with later := expected :: r.later }

/-- Returns to what was to be expected later. -/
def resume (r : EventReader) : EventReader :=
  match r.later with
  | expected :: later => { r with expected, later }
  | [] => { r with expected := .nothing }

def emitEmpty (r : EventReader) : EventReader :=
  r.emit (.scalar none none .plain [])

/-- Takes an anchor and a tag off the front, in either order and at most one of each. -/
def takeProperties (r : EventReader) :
    Option (List Char) × Option (List Char × List UInt8) × EventReader :=
  match r.tokens with
  | .anchor name :: .tag handle suffix :: rest
  | .tag handle suffix :: .anchor name :: rest =>
    (some name, some (handle, suffix), { r with tokens := rest })
  | .anchor name :: rest => (some name, none, { r with tokens := rest })
  | .tag handle suffix :: rest => (none, some (handle, suffix), { r with tokens := rest })
  | _ => (none, none, r)

def resolveTag (r : EventReader) (handle : List Char) (suffix : List UInt8) :
    Except Fault (List UInt8) :=
  if handle = [] then .ok suffix
  else
    match r.handles.find? (·.1 = handle) with
    | some (_, expansion) => .ok (expansion ++ suffix)
    | none => .error .order

/-- Reads a node. In a block it may be a block collection; `level` says whether it may be a sequence
that is not indented. -/
def readNode (r : EventReader) (block level : Bool) : Except Fault EventReader :=
  match r.peek with
  | .aliasTo name => .ok (r.advance.emit (.aliasTo name)).resume
  | _ => do
    let (anchor, parts, r) := r.takeProperties
    let tag ← match parts with
      | some (handle, suffix) => (r.resolveTag handle suffix).map some
      | none => pure none
    match r.peek with
    | .scalar style text =>
      return (r.advance.emit (.scalar anchor tag style text)).resume
    | .flowSequenceStart => return (r.emit (.sequenceStart anchor tag)).expect .flowSequenceFirst
    | .flowMappingStart => return (r.emit (.mappingStart anchor tag)).expect .flowMappingFirst
    | token =>
      if level && token = .blockEntry then
        return (r.emit (.sequenceStart anchor tag)).expect .levelSequenceEntry
      else if block && token = .blockSequenceStart then
        return (r.emit (.sequenceStart anchor tag)).expect .blockSequenceFirst
      else if block && token = .blockMappingStart then
        return (r.emit (.mappingStart anchor tag)).expect .blockMappingFirst
      -- An anchor or a tag without content belongs to an empty scalar.
      else if anchor.isSome || tag.isSome then
        return (r.emit (.scalar anchor tag .plain [])).resume
      else throw .order

/-- The tag handles that need no directive. -/
def defaultHandles : List (List Char × List UInt8) :=
  [(['!'], [33]),
    (['!', '!'], [116, 97, 103, 58, 121, 97, 109, 108, 46, 111, 114, 103, 44, 50, 48, 48, 50, 58])]

/-- Reads directives. Each version and each handle may be declared once, and the version has to be
1.1 or 1.2. -/
def readDirectives (versioned : Bool) (handles : List (List Char × List UInt8)) :
    List Token → Except Fault (List (List Char × List UInt8) × List Token)
  | .versionDirective major minor :: rest =>
    if versioned || major ≠ 1 || (minor ≠ 1 && minor ≠ 2) then .error .order
    else readDirectives true handles rest
  | .tagDirective handle expansion :: rest =>
    if handles.any (·.1 = handle) then .error .order
    else readDirectives versioned (handles ++ [(handle, expansion)]) rest
  | rest => .ok (handles ++ defaultHandles, rest)

/-- Whether a token may only stand at the start of a document or behind its end. -/
def isOutside : Token → Bool
  | .versionDirective .. | .tagDirective .. | .documentStart | .streamEnd => true
  | _ => false

def readDocument (r : EventReader) (first : Bool) : Except Fault EventReader := do
  -- Documents may be ended more than once.
  let r := if first then r else { r with tokens := r.tokens.dropWhile (· = .documentEnd) }
  if first && !isOutside r.peek then
    let r := { r with handles := defaultHandles }
    return ((r.emit .documentStart).thenExpect .documentEnd).expect .blockNode
  else if r.peek = .streamEnd then return r.advance.expect .nothing
  else
    let (handles, tokens) ← readDirectives false [] r.tokens
    let r := { r with handles, tokens }
    if r.peek = .documentStart then
      return ((r.advance.emit .documentStart).thenExpect .documentEnd).expect .documentContent
    else throw .order

def readDocumentContent (r : EventReader) : Except Fault EventReader :=
  if isOutside r.peek || r.peek = .documentEnd then .ok r.emitEmpty.resume
  else r.readNode true false

def readDocumentEnd (r : EventReader) : EventReader :=
  let r := if r.peek = .documentEnd then r.advance else r
  (r.emit .documentEnd).expect (.document false)

def readBlockSequenceEntry (r : EventReader) : Except Fault EventReader :=
  match r.peek with
  | .blockEntry =>
    let r := r.advance
    if r.peek = .blockEntry || r.peek = .blockEnd then .ok (r.emitEmpty.expect .blockSequenceEntry)
    else (r.thenExpect .blockSequenceEntry).readNode true false
  | .blockEnd => .ok (r.advance.emit .sequenceEnd).resume
  | _ => .error .order

def endsBlockValue (token : Token) : Bool :=
  token = .key || token = .value || token = .blockEnd

def readLevelSequenceEntry (r : EventReader) : Except Fault EventReader :=
  match r.peek with
  | .blockEntry =>
    let r := r.advance
    if r.peek = .blockEntry || endsBlockValue r.peek then
      .ok (r.emitEmpty.expect .levelSequenceEntry)
    else (r.thenExpect .levelSequenceEntry).readNode true false
  -- No token marks the end of such a sequence, so none is passed.
  | _ => .ok (r.emit .sequenceEnd).resume

def readBlockMappingKey (r : EventReader) : Except Fault EventReader :=
  match r.peek with
  | .key =>
    let r := r.advance
    if endsBlockValue r.peek then .ok (r.emitEmpty.expect .blockMappingValue)
    else (r.thenExpect .blockMappingValue).readNode true true
  | .blockEnd => .ok (r.advance.emit .mappingEnd).resume
  | _ => .error .order

def readBlockMappingValue (r : EventReader) : Except Fault EventReader :=
  match r.peek with
  | .value =>
    let r := r.advance
    if endsBlockValue r.peek then .ok (r.emitEmpty.expect .blockMappingKey)
    else (r.thenExpect .blockMappingKey).readNode true true
  | _ => .ok (r.emitEmpty.expect .blockMappingKey)

/-- Reads the comma in front of an entry of a flow collection, except in front of the first one. -/
def readComma (r : EventReader) (first : Bool) : Except Fault EventReader :=
  if first then .ok r
  else if r.peek = .flowEntry then .ok r.advance
  else .error .order

def readFlowSequenceEntry (r : EventReader) (first : Bool) : Except Fault EventReader := do
  let ending (r : EventReader) : EventReader := (r.advance.emit .sequenceEnd).resume
  if r.peek = .flowSequenceEnd then return ending r
  let r ← r.readComma first
  match r.peek with
  | .key => return (r.advance.emit (.mappingStart none none)).expect .flowPairKey
  | .flowSequenceEnd => return ending r
  | _ => (r.thenExpect .flowSequenceEntry).readNode false false

def endsFlowItem (token : Token) : Bool :=
  token = .flowEntry || token = .flowSequenceEnd

def readFlowPairKey (r : EventReader) : Except Fault EventReader :=
  -- The token behind a missing key is passed, whichever it is.
  if r.peek = .value || endsFlowItem r.peek then .ok (r.advance.emitEmpty.expect .flowPairValue)
  else (r.thenExpect .flowPairValue).readNode false false

def readFlowPairValue (r : EventReader) : Except Fault EventReader :=
  if r.peek = .value then
    let r := r.advance
    if endsFlowItem r.peek then .ok (r.emitEmpty.expect .flowPairEnd)
    else (r.thenExpect .flowPairEnd).readNode false false
  else .ok (r.emitEmpty.expect .flowPairEnd)

def endsFlowValue (token : Token) : Bool :=
  token = .flowEntry || token = .flowMappingEnd

def readFlowMappingKey (r : EventReader) (first : Bool) : Except Fault EventReader := do
  let ending (r : EventReader) : EventReader := (r.advance.emit .mappingEnd).resume
  if r.peek = .flowMappingEnd then return ending r
  let r ← r.readComma first
  match r.peek with
  | .key =>
    let r := r.advance
    if r.peek = .value || endsFlowValue r.peek then return r.emitEmpty.expect .flowMappingValue
    else (r.thenExpect .flowMappingValue).readNode false false
  | .flowMappingEnd => return ending r
  | _ => (r.thenExpect .flowMappingEmptyValue).readNode false false

def readFlowMappingValue (r : EventReader) : Except Fault EventReader :=
  if r.peek = .value then
    let r := r.advance
    if endsFlowValue r.peek then .ok (r.emitEmpty.expect .flowMappingKey)
    else (r.thenExpect .flowMappingKey).readNode false false
  else .ok (r.emitEmpty.expect .flowMappingKey)

def step (r : EventReader) : Except Fault EventReader :=
  match r.expected with
  | .document first => r.readDocument first
  | .documentContent => r.readDocumentContent
  | .documentEnd => .ok r.readDocumentEnd
  | .blockNode => r.readNode true false
  | .blockSequenceFirst => r.advance.readBlockSequenceEntry
  | .blockSequenceEntry => r.readBlockSequenceEntry
  | .levelSequenceEntry => r.readLevelSequenceEntry
  | .blockMappingFirst => r.advance.readBlockMappingKey
  | .blockMappingKey => r.readBlockMappingKey
  | .blockMappingValue => r.readBlockMappingValue
  | .flowSequenceFirst => r.advance.readFlowSequenceEntry true
  | .flowSequenceEntry => r.readFlowSequenceEntry false
  | .flowPairKey => r.readFlowPairKey
  | .flowPairValue => r.readFlowPairValue
  | .flowPairEnd => .ok ((r.emit .mappingEnd).expect .flowSequenceEntry)
  | .flowMappingFirst => r.advance.readFlowMappingKey true
  | .flowMappingKey => r.readFlowMappingKey false
  | .flowMappingValue => r.readFlowMappingValue
  | .flowMappingEmptyValue => .ok (r.emitEmpty.expect .flowMappingKey)
  | .nothing => .ok r

def run : (fuel : Nat) → EventReader → Except Fault EventReader
  | 0, _ => .error .order
  | fuel + 1, r => if r.expected = .nothing then .ok r else do run fuel (← r.step)

end EventReader

def Event.ofTokens (tokens : List Token) : Except Fault (List Event) := do
  let r ← EventReader.run (8 * tokens.length + 16) { tokens }
  return r.events.reverse

end LegacyAudit.Yaml
