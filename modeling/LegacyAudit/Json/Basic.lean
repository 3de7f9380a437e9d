/-!
# JSON values

Objects are lists of members in writing order, so that the text of a value is determined by the
value. A number is whole or has a fraction or exponent; the two are different kinds of value to a
reader that expects an integer.

## Main definitions

- `Decimal` - a decimal literal, kept as written
- `Json` - a JSON value
- `Json.member?` - looks a member up by its key
-/

namespace LegacyAudit

/-- The number `significand * 10 ^ exponent`, negated if `negative` holds. -/
structure Decimal where
  negative : Bool
  significand : Nat
  exponent : Int
  deriving DecidableEq, Repr, Inhabited

inductive Json where
  | null
  | bool (value : Bool)
  | whole (value : Int)
  | real (value : Decimal)
  | string (value : String)
  | array (items : List Json)
  | object (members : List (String × Json))
  deriving Inhabited, BEq

namespace Json

def nat (n : Nat) : Json :=
  .whole n

def strings (items : List String) : Json :=
  .array (items.map .string)

/-- An optional member: present with a value, left out without one. -/
def optional (key : String) (value : Option String) : List (String × Json) :=
  match value with
  | some s => [(key, .string s)]
  | none => []

/-- The value of the last member with the key. -/
def member? (value : Json) (key : String) : Option Json :=
  match value with
  | .object members => (members.reverse.find? (·.1 == key)).map (·.2)
  | _ => none

end Json

end LegacyAudit
