import LegacyAudit.Yaml.Token.Name
import LegacyAudit.Yaml.Token.Scalar

/-!
# From a text to tokens

Structure comes from indentation, so the reader keeps the columns of the open blocks and adds tokens
where blocks start and end. A mapping key is known only by the colon behind it; the reader remembers
where a key may have begun, and puts its token in front of it later on.

## Main definitions

- `PossibleKey` - a place where a mapping key may have begun
- `TokenReader` - the tokens so far and the state of the reader
- `TokenReader.step` - reads one more token, up to the end of the text
- `Token.ofText` - all tokens of a text

## Design notes

`level` is the column of the innermost block plus one, and 0 outside of all blocks. Tokens are kept
newest first, together with their number.
-/

namespace LegacyAudit.Yaml

/-- A place where a mapping key may have begun. -/
structure PossibleKey where
  /-- The text makes no sense unless this is a key. -/
  required : Bool
  /-- The number of tokens in front of it. -/
  position : Nat
  mark : Mark
  deriving Repr, Inhabited

structure TokenReader where
  cursor : Cursor
  /-- The tokens read so far, newest first. -/
  tokens : List Token := []
  count : Nat := 0
  level : Nat := 0
  /-- The levels of the blocks around the innermost one. -/
  levels : List Nat := []
  keyAllowed : Bool := true
  /-- The key that may have begun in the innermost flow collection, or outside of all of them. -/
  key : Option PossibleKey := none
  /-- The same for the flow collections around it. -/
  outerKeys : List (Option PossibleKey) := []
  deriving Repr, Inhabited

namespace TokenReader

def inFlow (r : TokenReader) : Bool :=
  !r.outerKeys.isEmpty

def push (r : TokenReader) (token : Token) : TokenReader :=
  { r with tokens := token :: r.tokens, count := r.count + 1 }

def insertAt (r : TokenReader) (position : Nat) (token : Token) : TokenReader :=
  -- The newest tokens stand in front, so these are the ones behind the position.
  let later := r.count - position
  { r with
    tokens := r.tokens.take later ++ token :: r.tokens.drop later
    count := r.count + 1 }

def pushThen (r : TokenReader) (token : Token) (cursor : Cursor) : TokenReader :=
  { r.push token with cursor }

/-- Opens a block at a column if it lies right of the innermost one. The token goes to `position`,
or to the end. -/
def openBlock (r : TokenReader) (column : Nat) (position : Option Nat) (token : Token) :
    TokenReader :=
  if r.inFlow || decide (column < r.level) then r
  else
    let r := { r with level := column + 1, levels := r.level :: r.levels }
    match position with
    | some position => r.insertAt position token
    | none => r.push token

/-- Closes the blocks above a level. The list of levels is the bound. -/
def closeLevels (target : Nat) (r : TokenReader) : List Nat → TokenReader
  | [] => r
  | outer :: rest =>
    if target < r.level then
      closeLevels target { r.push .blockEnd with level := outer, levels := rest } rest
    else r

/-- Closes the blocks above a level; inside flow collections there are none. -/
def closeBlocks (r : TokenReader) (target : Nat) : TokenReader :=
  if r.inFlow then r else closeLevels target r r.levels

/-- Gives up the possible key. That is a fault if it was required. -/
def dropKey (r : TokenReader) : Except Fault TokenReader :=
  match r.key with
  | some key => if key.required then .error .token else .ok { r with key := none }
  | none => .ok r

/-- Remembers that a key may begin here. It is required where the block has its keys. -/
def saveKey (r : TokenReader) : Except Fault TokenReader :=
  if r.keyAllowed then do
    let r ← r.dropKey
    let mark := r.cursor.mark
    let required := !r.inFlow && r.level == mark.column + 1
    return { r with key := some ⟨required, r.count, mark⟩ }
  else return r

/-- The longest distance between the start of a key and its colon, in bytes. -/
def keyReach : Nat := 1024

/-- A possible key, unless it has become impossible: a key ends in the line where it begins and is
not too long. -/
def freshKey (here : Mark) : Option PossibleKey → Except Fault (Option PossibleKey)
  | none => .ok none
  | some key =>
    if key.mark.line < here.line || key.mark.index + keyReach < here.index then
      if key.required then .error .token else .ok none
    else .ok (some key)

/-- Gives up the keys that have become impossible. -/
def dropStaleKeys (r : TokenReader) : Except Fault TokenReader := do
  let outerKeys ← r.outerKeys.mapM (freshKey r.cursor.mark)
  let key ← freshKey r.cursor.mark r.key
  return { r with key, outerKeys }

/-- Skips blanks, comments and line breaks. Tabs are skipped only where no key may begin. A byte
order mark at the start of a line is skipped too, but fills a column. -/
def skipBlank : (fuel : Nat) → TokenReader → TokenReader
  | 0, r => r
  | fuel + 1, r =>
    let c := if r.cursor.mark.column = 0 && r.cursor.peek = some '\ufeff' then r.cursor.skip 1
      else r.cursor
    let c := c.skipWhile fun ch => ch = ' ' || ((r.inFlow || !r.keyAllowed) && ch = '\t')
    let c := if c.peek = some '#' then c.skipWhile fun ch => !isBreak ch else c
    match c.break? with
    | some (_, c) => skipBlank fuel { r with cursor := c, keyAllowed := r.keyAllowed || !r.inFlow }
    | none => { r with cursor := c }

/-- Closes all blocks and gives up the possible key, where a document begins or ends. -/
def leaveDocument (r : TokenReader) : Except Fault TokenReader := do
  let r ← (r.closeBlocks 0).dropKey
  return { r with keyAllowed := false }

def readEnd (r : TokenReader) : Except Fault TokenReader := do
  return (← r.leaveDocument).push .streamEnd

def readDocumentMark (r : TokenReader) (token : Token) : Except Fault TokenReader := do
  let r ← r.leaveDocument
  return r.pushThen token (r.cursor.skip 3)

def readDirectiveLine (r : TokenReader) : Except Fault TokenReader := do
  let r ← r.leaveDocument
  let (token, c) ← readDirective (r.cursor.skip 1)
  return r.pushThen token c

def openFlow (r : TokenReader) (token : Token) : Except Fault TokenReader := do
  let r ← r.saveKey
  -- The brackets as a whole may still be a key, so what was saved is kept for later.
  let r := { r with key := none, outerKeys := r.key :: r.outerKeys, keyAllowed := true }
  return r.pushThen token (r.cursor.skip 1)

def closeFlow (r : TokenReader) (token : Token) : Except Fault TokenReader := do
  let r ← r.dropKey
  let r := match r.outerKeys with
    | key :: outerKeys => { r with key, outerKeys }
    | [] => r
  return { r with keyAllowed := false }.pushThen token (r.cursor.skip 1)

def readFlowEntry (r : TokenReader) : Except Fault TokenReader := do
  let r ← r.dropKey
  return { r with keyAllowed := true }.pushThen .flowEntry (r.cursor.skip 1)

def readBlockEntry (r : TokenReader) : Except Fault TokenReader := do
  if !r.inFlow && !r.keyAllowed then throw .token
  let r ← (r.openBlock r.cursor.mark.column none .blockSequenceStart).dropKey
  return { r with keyAllowed := true }.pushThen .blockEntry (r.cursor.skip 1)

def readKeyMark (r : TokenReader) : Except Fault TokenReader := do
  if !r.inFlow && !r.keyAllowed then throw .token
  let r ← (r.openBlock r.cursor.mark.column none .blockMappingStart).dropKey
  return { r with keyAllowed := !r.inFlow }.pushThen .key (r.cursor.skip 1)

def readValueMark (r : TokenReader) : Except Fault TokenReader :=
  match r.key with
  | some key =>
    -- What has been read since then was a key, and the first one of a block opens it.
    let r := (r.insertAt key.position .key).openBlock key.mark.column (some key.position)
      .blockMappingStart
    .ok ({ r with key := none, keyAllowed := false }.pushThen .value (r.cursor.skip 1))
  | none =>
    if !r.inFlow && !r.keyAllowed then .error .token
    else
      let r := r.openBlock r.cursor.mark.column none .blockMappingStart
      .ok ({ r with keyAllowed := !r.inFlow }.pushThen .value (r.cursor.skip 1))

/-- Reads an anchor, or an alias if `make` makes one. -/
def readAnchor (r : TokenReader) (make : List Char → Token) : Except Fault TokenReader := do
  let r ← r.saveKey
  let (name, c) ← readAnchorName (r.cursor.skip 1)
  return { r with keyAllowed := false }.pushThen (make name) c

def readTagToken (r : TokenReader) : Except Fault TokenReader := do
  let r ← r.saveKey
  let (token, c) ← readTag r.inFlow r.cursor
  return { r with keyAllowed := false }.pushThen token c

def readBlockScalar (r : TokenReader) (style : ScalarStyle) : Except Fault TokenReader := do
  let r ← r.dropKey
  let (text, c) ← readBlock (style = .folded) r.level (r.cursor.skip 1)
  return { r with keyAllowed := true }.pushThen (.scalar style text) c

def readQuotedScalar (r : TokenReader) (style : ScalarStyle) : Except Fault TokenReader := do
  let r ← r.saveKey
  let (text, c) ← readQuoted (style = .singleQuoted) (r.cursor.skip 1)
  return { r with keyAllowed := false }.pushThen (.scalar style text) c

/-- Reads a plain scalar. A key may begin behind it only in a new line. -/
def readPlainScalar (r : TokenReader) : Except Fault TokenReader := do
  let r ← r.saveKey
  let (text, broken, c) ← readPlain r.inFlow r.level r.cursor
  return { r with keyAllowed := broken }.pushThen (.scalar .plain text) c

/-- The characters that no plain scalar begins with, unless a later rule allows it. -/
def indicators : List Char :=
  ['-', '?', ':', ',', '[', ']', '\x7b', '\x7d', '#', '&', '*', '!', '|', '>', '\'', '"', '%', '@',
    '\x60']

/-- Whether a plain scalar begins with this character, given the one behind it. -/
def beginsPlain (inFlow : Bool) (c : Char) (next : Option Char) : Bool :=
  !(isGap c || isBreak c || indicators.contains c) ||
    (c = '-' && !(match next with
      | some d => isGap d
      | none => false)) ||
    (!inFlow && (c = '?' || c = ':') && !endsWord next)

def readToken (r : TokenReader) (ch : Char) : Except Fault TokenReader :=
  let next := r.cursor.peekAt 1
  if r.cursor.mark.column = 0 && ch = '%' then r.readDirectiveLine
  else if r.cursor.atTriple '-' then r.readDocumentMark .documentStart
  else if r.cursor.atTriple '.' then r.readDocumentMark .documentEnd
  else if ch = '[' then r.openFlow .flowSequenceStart
  else if ch = '\x7b' then r.openFlow .flowMappingStart
  else if ch = ']' then r.closeFlow .flowSequenceEnd
  else if ch = '\x7d' then r.closeFlow .flowMappingEnd
  else if ch = ',' then r.readFlowEntry
  else if ch = '-' && endsWord next then r.readBlockEntry
  else if ch = '?' && (r.inFlow || endsWord next) then r.readKeyMark
  else if ch = ':' && (r.inFlow || endsWord next) then r.readValueMark
  else if ch = '*' then r.readAnchor .aliasTo
  else if ch = '&' then r.readAnchor .anchor
  else if ch = '!' then r.readTagToken
  else if ch = '|' && !r.inFlow then r.readBlockScalar .literal
  else if ch = '>' && !r.inFlow then r.readBlockScalar .folded
  else if ch = '\'' then r.readQuotedScalar .singleQuoted
  else if ch = '"' then r.readQuotedScalar .doubleQuoted
  else if beginsPlain r.inFlow ch next then r.readPlainScalar
  else .error .token

/-- Reads the next token; the flag says whether it was the end of the text. -/
def step (r : TokenReader) : Except Fault (TokenReader × Bool) := do
  let r ← (r.skipBlank (r.cursor.rest.length + 1)).dropStaleKeys
  -- Stale keys go first: a key that is required has to be missed before its block is closed.
  let r := r.closeBlocks (r.cursor.mark.column + 1)
  match r.cursor.peek with
  | none => return (← r.readEnd, true)
  | some ch => return (← r.readToken ch, false)

def readAll : (fuel : Nat) → TokenReader → Except Fault TokenReader
  | 0, _ => .error .token
  | fuel + 1, r => do
    match ← r.step with
    | (r, true) => return r
    | (r, false) => readAll fuel r

end TokenReader

def Token.ofText (text : List Char) : Except Fault (List Token) := do
  if !text.all isAllowed then throw .character
  -- Each token but the last one takes a character away.
  let r ← TokenReader.readAll (text.length + 1) { cursor := ⟨text, {}⟩ }
  return r.tokens.reverse

end LegacyAudit.Yaml
