import LegacyAudit.Text.Decimal

/-!
# Decimal text of 64-bit binary floating point

Numbers with a fraction or an exponent are kept as doubles. A message shows such a number with the
fewest digits that read back as the same double: in positional notation from `10 ^ -5` up to
`10 ^ 16`, in scientific notation beyond.

## Main definitions

- `Binary64` - a finite, non-negative double as a significand and a power of two
- `Binary64.nearest` - the double nearest to a quotient, ties to the even significand
- `Binary64.shortest` - the fewest decimal digits that identify a double
- `Binary64.text` - its text, positional or scientific

## Design notes

All arithmetic is exact: a double stands for `significand * 2 ^ exponent`, and the numbers that
round to it form an interval whose ends are quotients of natural numbers.
-/

namespace LegacyAudit.Text

/-- The number `significand * 2 ^ exponent`. -/
structure Binary64 where
  significand : Nat
  exponent : Int
  deriving DecidableEq, Repr, Inhabited

namespace Binary64

/-- The quotient `n / d` as a pair, times a power of the base: the factor goes to the numerator or
to the denominator by the sign of the exponent. -/
def scale (base : Nat) (exponent : Int) (q : Nat × Nat) : Nat × Nat :=
  let power := Nat.pow base exponent.natAbs
  if exponent < 0 then (q.1, q.2 * power) else (q.1 * power, q.2)

/-- The natural number nearest to the quotient; a tie goes to the even one. -/
def roundEven (q : Nat × Nat) : Nat :=
  let below := q.1 / q.2
  let twice := 2 * (q.1 % q.2)
  if twice > q.2 ∨ (twice = q.2 ∧ below % 2 = 1) then below + 1 else below

def leastExponent : Int := -1074

/-- The double nearest to the quotient. Too large a number keeps its significand of 53 bits and
gets an exponent that no double has. -/
def nearest (q : Nat × Nat) : Binary64 :=
  if q.1 = 0 then ⟨0, leastExponent⟩
  else
    -- With this exponent the quotient has 53 binary digits, or 52.
    let guess : Int := (Nat.log2 q.1 : Int) - Nat.log2 q.2 - 52
    let scaled := scale 2 (-guess) q
    let exponent := if scaled.1 < scaled.2 * Nat.pow 2 52 then guess - 1 else guess
    -- Next to zero there are fewer digits.
    let exponent := max exponent leastExponent
    ⟨roundEven (scale 2 (-exponent) q), exponent⟩

def quotient (x : Binary64) : Nat × Nat :=
  scale 2 x.exponent (x.significand, 1)

/-- The double nearest to `x / 10 ^ n`, where the power of ten is itself rounded to a double. -/
def overPower (x : Binary64) (n : Nat) : Binary64 :=
  let power := (nearest (Nat.pow 10 n, 1)).quotient
  nearest (x.quotient.1 * power.2, x.quotient.2 * power.1)

/-- The largest power of ten that a double can hold. -/
def largestPower : Nat := 308

/-- Divides by a power of ten in steps that a double can hold. -/
def overPowers (x : Binary64) (n : Nat) : Binary64 :=
  if _h : n ≤ largestPower ∨ x.significand = 0 then x.overPower (min n largestPower)
  else overPowers (x.overPower largestPower) (n - largestPower)
termination_by n
decreasing_by
  have : 0 < largestPower := by decide
  omega

/-- The double nearest to `significand * 10 ^ exponent`, computed the short way: the significand
loses the digits that do not fit 64 bits, is rounded, and is then multiplied once or divided. -/
def ofDecimal (significand : Nat) (exponent : Int) : Binary64 :=
  let rec trim (fuel n : Nat) (e : Int) : Nat × Int :=
    match fuel with
    | 0 => (n, e)
    | fuel + 1 => if n < UInt64.size then (n, e) else trim fuel (n / 10) (e + 1)
  let (n, e) := trim (Nat.log2 significand + 1) significand exponent
  let whole := nearest (n, 1)
  if e < 0 then whole.overPowers e.natAbs
  else
    let power := (nearest (Nat.pow 10 e.natAbs, 1)).quotient
    nearest (whole.quotient.1 * power.1, whole.quotient.2 * power.2)

/-- Whether the quotient rounds to the double `x`. -/
def roundsTo (x : Binary64) (q : Nat × Nat) : Bool :=
  nearest q == x

/-- The candidate with `count` digits: the multiple of a power of ten next to the value, if it
rounds back to `x`. Of two such multiples the nearer one is taken. -/
def candidate? (x : Binary64) (leading : Int) (count : Nat) : Option (Nat × Int) :=
  let power := leading - count + 1
  let scaled := scale 10 (-power) x.quotient
  let below := scaled.1 / scaled.2
  let nearer := roundEven scaled
  let other := if nearer = below then below + 1 else below
  if roundsTo x (scale 10 power (nearer, 1)) then some (nearer, power)
  else if roundsTo x (scale 10 power (other, 1)) then some (other, power)
  else none

/-- The power of ten of the leading decimal digit of a positive double. -/
def leadingPower (x : Binary64) : Int :=
  let q := x.quotient
  if q.2 ≤ q.1 then (decimalChars (q.1 / q.2)).length - 1
  else -(decimalChars (q.2 / q.1)).length

/-- Moves up to `count` trailing zeros from the digits into the power of ten. -/
def dropZeros : Nat → Nat × Int → Nat × Int
  | 0, found => found
  | count + 1, (digits, power) =>
    if digits % 10 = 0 then dropZeros count (digits / 10, power + 1) else (digits, power)

/-- The fewest digits that identify `x`, as a natural number times a power of ten. Seventeen digits
always do. -/
def shortest (x : Binary64) : Nat × Int :=
  if x.significand = 0 then (0, 0)
  else
    let found := (List.range 17).findSome? fun n => candidate? x x.leadingPower (n + 1)
    dropZeros 17 (found.getD (0, 0))

/-- The number `digits * 10 ^ power` in positional notation, with at least one digit behind the
point. -/
def positionalChars (digits : Nat) (power : Int) : List Char :=
  if 0 ≤ power then decimalChars digits ++ List.replicate power.toNat '0' ++ ['.', '0']
  else
    let places := power.natAbs
    let padded := List.replicate (places + 1 - (decimalChars digits).length) '0' ++
      decimalChars digits
    padded.take (padded.length - places) ++ '.' :: padded.drop (padded.length - places)

/-- The number whose digits begin at the power `10 ^ exponent`, in scientific notation: one digit,
a point and more digits if there are any, and a signed exponent of at least two digits. -/
def scientificChars (digits : Nat) (exponent : Int) : List Char :=
  let shown := decimalChars digits
  let power := decimalChars exponent.natAbs
  shown.take 1 ++ (if shown.length ≤ 1 then [] else '.' :: shown.drop 1) ++
    ['e', if exponent < 0 then '-' else '+'] ++ List.replicate (2 - power.length) '0' ++ power

/-- The exponents of the leading digit that are written positionally. -/
def isPositional (exponent : Int) : Bool :=
  decide (-5 ≤ exponent) && decide (exponent ≤ 15)

def text (negative : Bool) (x : Binary64) : String :=
  let (digits, power) := x.shortest
  let exponent := power + (decimalChars digits).length - 1
  let shown := if isPositional exponent then positionalChars digits power
    else scientificChars digits exponent
  String.ofList ((if negative then ['-'] else []) ++ shown)

end Binary64

end LegacyAudit.Text
