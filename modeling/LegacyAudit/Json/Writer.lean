import LegacyAudit.Json.Basic
import LegacyAudit.Text.Decimal

/-!
# Writing JSON

Two layouts of one value: compact, without any blank, and indented by two blanks a level. Inside
strings the quote, the backslash and the control characters below `0x20` are escaped and nothing
else is.

## Main definitions

- `Json.escapeChar`, `Json.quote` - strings
- `Json.compact` - the compact text
- `Json.pretty` - the indented text
-/

namespace LegacyAudit.Json

open LegacyAudit.Text

def escapeChar (c : Char) : List Char :=
  if c = '"' then ['\\', '"']
  else if c = '\\' then ['\\', '\\']
  else if c = '\n' then ['\\', 'n']
  else if c = '\r' then ['\\', 'r']
  else if c = '\t' then ['\\', 't']
  else if c = '\x08' then ['\\', 'b']
  else if c = '\x0c' then ['\\', 'f']
  else if c.toNat < 0x20 then
    ['\\', 'u', '0', '0', digitChar (c.toNat / 16), digitChar (c.toNat % 16)]
  else [c]

def quote (s : String) : List Char :=
  '"' :: s.toList.flatMap escapeChar ++ ['"']

def wholeChars (n : Int) : List Char :=
  if n < 0 then '-' :: decimalChars n.natAbs else decimalChars n.natAbs

/-- The text of a decimal literal, with the exponent spelled out. -/
def realChars (d : Decimal) : List Char :=
  (if d.negative then ['-'] else []) ++ decimalChars d.significand ++ ['e'] ++ wholeChars d.exponent

mutual

def compactChars : Json → List Char
  | .null => "null".toList
  | .bool true => "true".toList
  | .bool false => "false".toList
  | .whole n => wholeChars n
  | .real d => realChars d
  | .string s => quote s
  | .array items => '[' :: compactItems items
  | .object members => '{' :: compactMembers members

def compactItems : List Json → List Char
  | [] => [']']
  | [v] => compactChars v ++ [']']
  | v :: rest => compactChars v ++ ',' :: compactItems rest

def compactMembers : List (String × Json) → List Char
  | [] => ['}']
  | [(k, v)] => quote k ++ ':' :: compactChars v ++ ['}']
  | (k, v) :: rest => quote k ++ ':' :: compactChars v ++ ',' :: compactMembers rest

end

def newline (level : Nat) : List Char :=
  '\n' :: List.replicate (2 * level) ' '

mutual

/-- The indented text of a value that stands at the given level. -/
def prettyChars (level : Nat) : Json → List Char
  | .null => "null".toList
  | .bool true => "true".toList
  | .bool false => "false".toList
  | .whole n => wholeChars n
  | .real d => realChars d
  | .string s => quote s
  | .array items =>
    if items.isEmpty then ['[', ']'] else '[' :: newline (level + 1) ++ prettyItems level items
  | .object members =>
    if members.isEmpty then ['{', '}']
    else '{' :: newline (level + 1) ++ prettyMembers level members

/-- The items of an array that stands at the given level, and its closing bracket. -/
def prettyItems (level : Nat) : List Json → List Char
  | [] => [']']
  | [v] => prettyChars (level + 1) v ++ newline level ++ [']']
  | v :: rest => prettyChars (level + 1) v ++ ',' :: newline (level + 1) ++ prettyItems level rest

/-- The members of an object that stands at the given level, and its closing brace. -/
def prettyMembers (level : Nat) : List (String × Json) → List Char
  | [] => ['}']
  | [(k, v)] => quote k ++ ':' :: ' ' :: prettyChars (level + 1) v ++ newline level ++ ['}']
  | (k, v) :: rest =>
    quote k ++ ':' :: ' ' :: prettyChars (level + 1) v ++ ',' :: newline (level + 1) ++
      prettyMembers level rest

end

def compact (value : Json) : String :=
  String.ofList (compactChars value)

/-- The text of a value, indented by two blanks a level. -/
def pretty (value : Json) : String :=
  String.ofList (prettyChars 0 value)

end LegacyAudit.Json
