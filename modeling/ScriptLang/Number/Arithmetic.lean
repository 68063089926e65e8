-- The remainder of floating-point numbers, computed exactly.
import ScriptLang.Number.Exact

namespace ScriptLang

/-- The float `± n · 2 ^ e`, for a value that a float holds exactly. -/
def exactFloat (negative : Bool) (n : Nat) (e : Int) : Float :=
  let exponent := max ((n.log2 : Int) + e - 52) (-1074)
  let mantissa := n * Nat.pow 2 (e - exponent).toNat / Nat.pow 2 (exponent - e).toNat
  let magnitude :=
    if mantissa < Nat.pow 2 52 then mantissa
    else (exponent + 1075).toNat * Nat.pow 2 52 + (mantissa - Nat.pow 2 52)
  Float.ofBits (UInt64.ofNat (magnitude + if negative then Nat.pow 2 63 else 0))

/-- What is left of `a` when as many whole `b` as fit are taken off toward zero. It has the
sign of `a` and is always exact. -/
def floatRemainder (a b : Float) : Float :=
  match FloatShape.of a, FloatShape.of b with
  | .finite x, .finite y =>
    if y.mantissa = 0 then 0.0 / 0.0
    else
      let e := min x.exponent y.exponent
      let m := x.mantissa * Nat.pow 2 (x.exponent - e).toNat
      let n := y.mantissa * Nat.pow 2 (y.exponent - e).toNat
      exactFloat x.negative (m % n) e
  | .finite _, .infinite _ => a
  | _, _ => 0.0 / 0.0

end ScriptLang
