-- The texts of floating-point numbers: as a program shows them, as source text, and as
-- the text that decides which hash keys are the same.
import ScriptLang.Number.Decimal

namespace ScriptLang

namespace FloatText

/-- Writes a number with its sign. The finite values are written by `digits`. -/
def signed (digits : Binary → String) (x : Float) : String :=
  match FloatShape.of x with
  | .nan => "NaN"
  | .infinite negative => if negative then "-inf" else "inf"
  | .finite b => (if b.negative then "-" else "") ++ digits b

/-- The text that a program shows. A whole number has all its digits and one place, any
other number the fewest digits that read back, and neither has an exponent. -/
def display : Float → String :=
  signed fun b =>
    if b.isWhole then Decimal.fixed 1 (Decimal.rounded 1 b) else (Decimal.shortest b).positional

/-- The text of a literal. Numbers from `10 ^ 16` up and numbers below `10 ^ -4` have an
exponent, the others at least one place. -/
def source : Float → String :=
  signed fun b =>
    let d := Decimal.shortest b
    let size := d.exponent + ((Nat.repr d.coefficient).length : Int)
    if d.coefficient ≠ 0 ∧ (16 < size ∨ size < -3) then d.scientific
    else if 0 ≤ d.exponent then d.positional ++ ".0"
    else d.positional

/-- The number of places that tell two keys apart. -/
def keyPlaces : Nat := 10

/-- The text that is hashed for a float key. -/
def key : Float → String :=
  signed fun b => Decimal.fixed keyPlaces (Decimal.rounded keyPlaces b)

end FloatText

end ScriptLang
