import LegacyAudit.Glob.Basic

/-!
# Reading path patterns

`?` stands for a byte and `*` for any number of them. `**` stands for whole components where slashes
or the ends of the pattern are on both its sides, and is no more than `*` elsewhere. Classes stand
in brackets, alternatives in braces with commas between them, and a backslash takes the next
character as it is.

## Main definitions

- `Glob.ReadErrorKind`, `Glob.ReadError` - why a text is no pattern
- `Glob.Reader` - what has been read so far; `Glob.Reader.step` reads one more character
- `Glob.parse` - reads a pattern
-/

namespace LegacyAudit.Glob

inductive ReadErrorKind where
  | unclosedClass
  | invalidRange (first last : Char)
  | unopenedAlternatives
  | unclosedAlternatives
  | danglingEscape
  deriving DecidableEq, Repr

def ReadErrorKind.message : ReadErrorKind → String
  | unclosedClass => "unclosed character class; missing ']'"
  | invalidRange first last =>
    "invalid range; '" ++ first.toString ++ "' > '" ++ last.toString ++ "'"
  | unopenedAlternatives =>
    "unopened alternate group; missing '\x7b' (maybe escape '\x7d' with '[\x7d]'?)"
  | unclosedAlternatives =>
    "unclosed alternate group; missing '\x7d' (maybe escape '\x7b' with '[\x7b]'?)"
  | danglingEscape => "dangling '\\'"

structure ReadError where
  pattern : String
  kind : ReadErrorKind
  deriving DecidableEq, Repr

def ReadError.message (e : ReadError) : String :=
  "error parsing glob '" ++ e.pattern ++ "': " ++ e.kind.message

structure ClassReader where
  /-- Nothing has been read yet, not even a negation. -/
  fresh : Bool := true
  negated : Bool := false
  /-- The ranges read so far, newest first. -/
  ranges : List (Char × Char) := []
  /-- A hyphen has been read that may be inside a range. -/
  hyphen : Bool := false

inductive ClassStep where
  | more (reader : ClassReader)
  | closed (negated : Bool) (ranges : List (Char × Char))

/-- Adds a character to a class, as the end of a range if one is open. -/
def ClassReader.add (r : ClassReader) (c : Char) : Except ReadErrorKind ClassReader :=
  match r.hyphen, r.ranges with
  | true, (first, _) :: rest =>
    if c < first then .error (.invalidRange first c)
    else .ok { r with fresh := false, ranges := (first, c) :: rest, hyphen := false }
  | _, _ => .ok { r with fresh := false, ranges := (c, c) :: r.ranges, hyphen := false }

/-- Reads a character of a class. A closing bracket and a hyphen that come first stand for
themselves, and so does a hyphen that comes last. -/
def ClassReader.step (r : ClassReader) (c : Char) : Except ReadErrorKind ClassStep :=
  if r.fresh && (c = '!' || c = '^') then .ok (.more { r with fresh := false, negated := true })
  else if c = ']' && !r.ranges.isEmpty then
    let ranges := if r.hyphen then ('-', '-') :: r.ranges else r.ranges
    .ok (.closed r.negated ranges.reverse)
  else if c = '-' && !r.ranges.isEmpty && !r.hyphen then .ok (.more { r with hyphen := true })
  else (r.add c).map .more

structure Group where
  /-- The tokens in front of the alternatives, newest first. -/
  before : List Token
  /-- The alternatives that are complete, newest first. -/
  done : List (List Token)

inductive Mode where
  | plain
  /-- Behind a backslash. -/
  | escaped
  | inClass (reader : ClassReader)
  /-- Behind one star; `before` is the character in front of it. -/
  | star (before : Option Char)
  /-- Behind two stars. -/
  | stars (before : Option Char)

structure Reader where
  mode : Mode := .plain
  /-- The tokens of the alternative that is being read, newest first. -/
  tokens : List Token := []
  /-- The alternatives around it, innermost first. -/
  groups : List Group := []
  last : Option Char := none

namespace Reader

def push (r : Reader) (token : Token) : Reader :=
  { r with tokens := token :: r.tokens }

/-- Reads a character that is not inside a class or behind a star or backslash. -/
def plainStep (r : Reader) (c : Char) : Except ReadErrorKind Reader :=
  let r' := { r with mode := .plain, last := some c }
  match c with
  | '?' => .ok (r'.push .any)
  | '*' => .ok { r' with mode := .star r.last }
  | '[' => .ok { r' with mode := .inClass {} }
  | '\\' => .ok { r' with mode := .escaped }
  -- The tokens so far wait in the group until its closing brace.
  | '\x7b' => .ok { r' with tokens := [], groups := ⟨r.tokens, []⟩ :: r.groups }
  | '\x7d' =>
    match r.groups with
    | [] => .error .unopenedAlternatives
    | group :: groups =>
      let branches := (r.tokens.reverse :: group.done).reverse
      .ok { r' with tokens := .alternatives branches :: group.before, groups }
  | ',' =>
    match r.groups with
    | [] => .ok (r'.push (.literal ','))
    | group :: groups =>
      .ok { r' with
          tokens := []
          groups := { group with done := r.tokens.reverse :: group.done } :: groups }
  | c => .ok (r'.push (.literal c))

/-- Two stars that stand for no more than one. -/
def pushStars (r : Reader) : Reader :=
  (r.push .anything).push .anything

/-- Puts whole components in the place of the newest token, which is the slash in front of two
stars; components that are there already take the new ones in. -/
def pushComponents (r : Reader) (token : Token) : Reader :=
  match r.tokens with
  | .leadingComponents :: _ | .inside :: _ => r
  | _ :: rest => { r with tokens := token :: rest }
  | [] => r.push token

/-- Deals with two stars behind `before` once the next character is known; `none` is the end. The
flag says whether that character, a slash, belongs to the stars. -/
def endStars (r : Reader) (before next : Option Char) : Reader × Bool :=
  let nested := !r.groups.isEmpty
  -- No token means that the pattern, or a branch of it, begins with the stars.
  if r.tokens.isEmpty then
    match next with
    | none => (r.push .leadingComponents, false)
    | some '/' => (r.push .leadingComponents, true)
    | some _ => (r.pushStars, false)
  else if before ≠ some '/' && !(nested && (before = some ',' || before = some '\x7b')) then
    (r.pushStars, false)
  else
    match next with
    | none => (r.pushComponents .inside, false)
    | some '/' => (r.pushComponents .innerComponents, true)
    | some c =>
      -- In front of a comma or a closing brace a branch ends.
      if nested && (c = ',' || c = '\x7d') then (r.pushComponents .inside, false)
      else (r.pushStars, false)

def step (r : Reader) (c : Char) : Except ReadErrorKind Reader :=
  match r.mode with
  | .plain => r.plainStep c
  | .escaped => .ok ({ r with mode := .plain, last := some c }.push (.literal c))
  | .inClass reader => do
    match ← reader.step c with
    | .more reader => return { r with mode := .inClass reader, last := some c }
    | .closed negated ranges =>
      return { r with mode := .plain, last := some c }.push (.oneOf negated ranges)
  | .star before =>
    if c = '*' then .ok { r with mode := .stars before, last := some c }
    else (r.push .anything).plainStep c
  | .stars before =>
    match r.endStars before (some c) with
    | (r, true) => .ok { r with mode := .plain, last := some c }
    | (r, false) => r.plainStep c

/-- The pattern that has been read, once there are no more characters. -/
def finish (r : Reader) : Except ReadErrorKind Glob :=
  let complete (r : Reader) : Except ReadErrorKind Glob :=
    if r.groups.isEmpty then .ok ⟨r.tokens.reverse⟩ else .error .unclosedAlternatives
  match r.mode with
  | .plain => complete r
  | .escaped => .error .danglingEscape
  | .inClass _ => .error .unclosedClass
  | .star _ => complete (r.push .anything)
  | .stars before => complete (r.endStars before none).1

end Reader

def parseChars (s : List Char) : Except ReadErrorKind Glob := do
  let reader ← s.foldlM Reader.step {}
  reader.finish

def parse (text : String) : Except ReadError Glob :=
  match parseChars text.toList with
  | .ok g => .ok g
  | .error kind => .error ⟨text, kind⟩

end LegacyAudit.Glob
