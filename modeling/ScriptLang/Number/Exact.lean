-- The exact value of a floating-point number, read off its bits. What the library
-- says about digits and about whole numbers is said about this value.

namespace ScriptLang

/-- A finite number: `mantissa · 2 ^ exponent`, with its sign. Zero keeps a sign too. -/
structure Binary where
  negative : Bool
  mantissa : Nat
  exponent : Int
  deriving DecidableEq, Repr

/-- What the bits of a floating-point number stand for. -/
inductive FloatShape where
  | nan
  | infinite (negative : Bool)
  | finite (value : Binary)
  deriving DecidableEq, Repr

namespace FloatShape

/-- Splits 64 bits into a sign, an exponent of 11 bits and a fraction of 52 bits. -/
def ofBits (bits : UInt64) : FloatShape :=
  let n := bits.toNat
  let negative : Bool := n / Nat.pow 2 63 = 1
  let exponent : Nat := n / Nat.pow 2 52 % 2048
  let fraction := n % Nat.pow 2 52
  if exponent = 2047 then
    if fraction = 0 then infinite negative else nan
  else if exponent = 0 then finite ⟨negative, fraction, -1074⟩
  else finite ⟨negative, Nat.pow 2 52 + fraction, (exponent : Int) - 1075⟩

/-- The shape of a floating-point number. -/
def of (x : Float) : FloatShape := ofBits x.toBits

end FloatShape

namespace Binary

/-- The value without its sign is `numerator / denominator`. -/
def numerator (b : Binary) : Nat := b.mantissa * Nat.pow 2 b.exponent.toNat

def denominator (b : Binary) : Nat := Nat.pow 2 (-b.exponent).toNat

/-- Whether the value is a whole number. -/
def isWhole (b : Binary) : Bool := b.numerator % b.denominator = 0

/-- The value cut off toward zero. -/
def truncate (b : Binary) : Int :=
  let n : Int := ↑(b.numerator / b.denominator)
  if b.negative then -n else n

end Binary

end ScriptLang
