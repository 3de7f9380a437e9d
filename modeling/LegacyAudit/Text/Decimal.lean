/-!
# Decimal numerals

Natural numbers in decimal notation, without leading zeros, and the way back.

## Main definitions

- `decimalChars`, `decimal` - the numeral of a number
- `decimalValue` - the number written by a list of digits
- `hexChars` - lower-case hexadecimal, used for code points
-/

namespace LegacyAudit.Text

/-- The digit for `n < 16`, with letters in lower case. -/
def digitChar (n : Nat) : Char :=
  if n < 10 then Char.ofNat (48 + n) else Char.ofNat (87 + n)

/-- The digits of `n` in front of `rest`, most significant first. -/
def digitsOnto (base n : Nat) (rest : List Char) : List Char :=
  if _h : base ≤ 1 ∨ n < base then digitChar n :: rest
  else digitsOnto base (n / base) (digitChar (n % base) :: rest)
termination_by n
decreasing_by
  have hb : 1 < base := by omega
  exact Nat.div_lt_self (by omega) hb

/-- The decimal digits of `n`, most significant first. -/
def decimalChars (n : Nat) : List Char :=
  digitsOnto 10 n []

def decimal (n : Nat) : String :=
  String.ofList (decimalChars n)

/-- The hexadecimal digits of `n` in lower case, most significant first. -/
def hexChars (n : Nat) : List Char :=
  digitsOnto 16 n []

/-- The value of a digit below 16, in either case. -/
def digitValue? (c : Char) : Option Nat :=
  if '0' ≤ c ∧ c ≤ '9' then some (c.toNat - 48)
  else if 'a' ≤ c ∧ c ≤ 'f' then some (c.toNat - 87)
  else if 'A' ≤ c ∧ c ≤ 'F' then some (c.toNat - 55)
  else none

/-- Continues a numeral whose leading digits are worth `value`; `none` if a character is no digit
of the base. -/
def numeralFrom? (base value : Nat) : List Char → Option Nat
  | [] => some value
  | c :: rest =>
    match digitValue? c with
    | some d => if d < base then numeralFrom? base (value * base + d) rest else none
    | none => none

/-- The number written by one or more digits of `base`. -/
def numeral? (base : Nat) (s : List Char) : Option Nat :=
  if s.isEmpty then none else numeralFrom? base 0 s

end LegacyAudit.Text
