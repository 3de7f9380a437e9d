/-!
# Text with colours

A terminal shows text in a style between two control sequences. Text that contains the closing
sequence itself has the style opened again behind it, so the style covers all of it.

## Main definitions

- `Ink` - a style: a weight and a colour, either of which may be missing
- `Ink.paint` - text in a style, or as it is where colours are off
- `padRight` - text with blanks up to a width
-/

namespace LegacyAudit.Text

inductive Weight where
  | bold
  | dimmed
  deriving DecidableEq, Repr

inductive Colour where
  | red
  | green
  | yellow
  | blue
  | cyan
  deriving DecidableEq, Repr

structure Ink where
  weight : Option Weight := none
  colour : Option Colour := none
  deriving DecidableEq, Repr

def Weight.code : Weight → String
  | bold => "1"
  | dimmed => "2"

def Colour.code : Colour → String
  | red => "31"
  | green => "32"
  | yellow => "33"
  | blue => "34"
  | cyan => "36"

/-- Text with blanks behind it, up to a number of characters. -/
def padRight (width : Nat) (text : List Char) : List Char :=
  text ++ List.replicate (width - text.length) ' '

namespace Ink

def closing : List Char := "\x1b[0m".toList

/-- Begins a style: the weight comes before the colour. -/
def opening (ink : Ink) : List Char :=
  let codes := (ink.weight.map Weight.code).toList ++ (ink.colour.map Colour.code).toList
  "\x1b[".toList ++ (";".intercalate codes).toList ++ ['m']

/-- Writes `again` behind every `closing` sequence in a text. `skip` characters belong to a sequence
that has been found. -/
def reopen (again : List Char) (skip : Nat) : List Char → List Char
  | [] => []
  | c :: rest =>
    match skip with
    | skip + 1 => c :: (if skip = 0 then again else []) ++ reopen again skip rest
    | 0 =>
      if closing.isPrefixOf (c :: rest) then c :: reopen again (closing.length - 1) rest
      else c :: reopen again 0 rest

def paintPadded (ink : Ink) (colours : Bool) (width : Nat) (text : String) : String :=
  String.ofList <|
    if colours then ink.opening ++ padRight width (reopen ink.opening 0 text.toList) ++ closing
    else padRight width text.toList

def paint (ink : Ink) (colours : Bool) (text : String) : String :=
  ink.paintPadded colours 0 text

end Ink

end LegacyAudit.Text
