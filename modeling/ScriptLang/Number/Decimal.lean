-- Decimal digits of floating-point numbers in exact integer arithmetic: the fewest
-- digits that read back, a fixed number of places, and reading a literal.
import ScriptLang.Number.Exact

namespace ScriptLang

/-- A decimal number without a sign: `coefficient · 10 ^ exponent`. -/
structure Decimal where
  coefficient : Nat
  exponent : Int
  deriving DecidableEq, Repr

namespace Decimal

/-! ## The fewest digits that read back -/

/-- The exact value of a float and the ends of the interval of numbers that round to it,
all three over one denominator. The ends belong to the interval when the mantissa is even. -/
structure Interval where
  low : Nat
  value : Nat
  high : Nat
  denominator : Nat
  closed : Bool

/-- The interval of a mantissa and an exponent. Below the least mantissa of a binade the
neighbour is half as far away, unless the numbers there are subnormal. -/
def Interval.of (b : Binary) : Interval :=
  let unit := Nat.pow 2 b.exponent.toNat
  let below := if b.mantissa = Nat.pow 2 52 ∧ -1074 < b.exponent then 1 else 2
  { low := (4 * b.mantissa - below) * unit
    value := 4 * b.mantissa * unit
    high := (4 * b.mantissa + 2) * unit
    denominator := 4 * b.denominator
    closed := b.mantissa % 2 = 0 }

/-- The multiple of `10 ^ exponent` that lies in the interval and is nearest to its value.
Of two that are equally near it is the greater one. -/
def Interval.onGrid? (i : Interval) (exponent : Int) : Option Nat :=
  let scale := Nat.pow 10 (-exponent).toNat
  let denominator := i.denominator * Nat.pow 10 exponent.toNat
  let value := i.value * scale
  let inside (c : Nat) : Bool :=
    let point := c * denominator
    if i.closed then i.low * scale ≤ point && point ≤ i.high * scale
    else i.low * scale < point && point < i.high * scale
  let floor := value / denominator
  let ceiling := floor + 1
  if inside floor then
    if inside ceiling && ceiling * denominator - value ≤ value - floor * denominator then
      some ceiling
    else some floor
  else if inside ceiling then some ceiling
  else none

/-- Looks for the coarsest decimal grid with a point in the interval, from the grid of
`exponent` downward. -/
def Interval.coarsest (i : Interval) : Nat → Int → Decimal
  | 0, exponent => ⟨0, exponent⟩
  | fuel + 1, exponent =>
    match i.onGrid? exponent with
    | some coefficient => ⟨coefficient, exponent⟩
    | none => i.coarsest fuel (exponent - 1)

/-- The decimal with the fewest digits that reads back as the value. The search starts at a
power of ten above twice the value, so no coarser grid has a point in the interval, and
seventeen digits always read back. -/
def shortest (b : Binary) : Decimal :=
  if b.mantissa = 0 then ⟨0, 0⟩
  else
    let above := (b.exponent + (b.mantissa.log2 : Int) + 2) * 30103 / 100000 + 1
    (Interval.of b).coarsest 24 above

/-! ## A fixed number of places -/

/-- The whole number nearest to a quotient. A half goes to the even neighbour. -/
def roundDiv (numerator denominator : Nat) : Nat :=
  let quotient := numerator / denominator
  let twice := 2 * (numerator % denominator)
  if twice < denominator ∨ (twice = denominator ∧ quotient % 2 = 0) then quotient
  else quotient + 1

/-- The value of a float in units of `10 ^ -places`, rounded. -/
def rounded (places : Nat) (b : Binary) : Nat :=
  roundDiv (b.numerator * Nat.pow 10 places) b.denominator

/-- The text of `n · 10 ^ -places` with all its places. -/
def fixed (places n : Nat) : String :=
  let digits := Nat.repr n
  if places = 0 then digits
  else
    let padded := "".pushn '0' (places + 1 - digits.length) ++ digits
    let whole := padded.length - places
    String.ofList (padded.toList.take whole) ++ "." ++ String.ofList (padded.toList.drop whole)

/-- The text of a decimal without an exponent. -/
def positional (d : Decimal) : String :=
  if 0 ≤ d.exponent then Nat.repr (d.coefficient * Nat.pow 10 d.exponent.toNat)
  else fixed (-d.exponent).toNat d.coefficient

/-- The text of a decimal with one digit before the point and an exponent. -/
def scientific (d : Decimal) : String :=
  let digits := Nat.repr d.coefficient
  let fraction := String.ofList (digits.toList.drop 1)
  let exponent := d.exponent + (digits.length : Int) - 1
  String.ofList (digits.toList.take 1) ++ (if fraction.isEmpty then "" else "." ++ fraction)
    ++ "e" ++ (if exponent < 0 then "-" else "") ++ Nat.repr exponent.natAbs

/-! ## The nearest float -/

/-- The greatest power of two that a quotient reaches, from the lengths of its parts. -/
def floorLog2 (numerator denominator : Nat) : Int :=
  let guess : Int := (numerator.log2 : Int) - denominator.log2
  if denominator * Nat.pow 2 guess.toNat ≤ numerator * Nat.pow 2 (-guess).toNat then guess
  else guess - 1

/-- The exponent of the floats around a quotient. Their mantissas have 53 bits, fewer where the
exponent could not be less. -/
def floatExponent (numerator denominator : Nat) : Int :=
  max (floorLog2 numerator denominator - 52) (-1074)

/-- The bits of the float nearest to a quotient. The mantissa is added to the bits of the exponent,
so that one that is rounded up to 54 bits moves the exponent on. -/
def floatBits (numerator denominator : Nat) : Nat :=
  let exponent := floatExponent numerator denominator
  let mantissa := roundDiv (numerator * Nat.pow 2 (-exponent).toNat)
    (denominator * Nat.pow 2 exponent.toNat)
  (exponent + 1074).toNat * Nat.pow 2 52 + mantissa

/-- The bits of the infinite float. Those of finite floats are below. -/
def infiniteBits : Nat := 2047 * Nat.pow 2 52

/-- The float nearest to a quotient, or none if that is infinite. -/
def nearestFloat? (numerator denominator : Nat) : Option Float :=
  let bits := floatBits numerator denominator
  if bits < infiniteBits then some (Float.ofBits (.ofNat bits)) else none

/-! ## Reading -/

/-- The number that decimal digits stand for. -/
def ofDigits (digits : List Char) : Nat :=
  digits.foldl (fun n c => 10 * n + (c.toNat - '0'.toNat)) 0

/-- The decimal that a literal spells: digits, perhaps a fraction, perhaps an exponent. -/
def ofLiteral (literal : List Char) : Decimal :=
  let mantissa := literal.takeWhile (fun c => c ≠ 'e' ∧ c ≠ 'E')
  let tail := (literal.drop mantissa.length).drop 1
  let whole := mantissa.takeWhile Char.isDigit
  let fraction := (mantissa.drop whole.length).drop 1
  let size : Int := ↑(ofDigits (tail.filter Char.isDigit))
  let exponent := if tail.head? = some '-' then -size else size
  ⟨ofDigits (whole ++ fraction), exponent - fraction.length⟩

/-- The float nearest to a decimal, or none if that is infinite. A decimal from `10 ^ 310`
up is past every float and one below `10 ^ -330` rounds to zero, so no greater power of ten
is multiplied out. -/
def toFloat? (d : Decimal) : Option Float :=
  let size := d.exponent + ((Nat.repr d.coefficient).length : Int)
  if d.coefficient = 0 ∨ size < -330 then some 0.0
  else if 310 < size then none
  else
    nearestFloat? (d.coefficient * Nat.pow 10 d.exponent.toNat)
      (Nat.pow 10 (-d.exponent).toNat)

end Decimal

end ScriptLang
