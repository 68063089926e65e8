-- The numbers that literals stand for.
import ScriptLang.Number.Integer
import ScriptLang.Number.Decimal

namespace ScriptLang

/-- The value of a hexadecimal digit. -/
def hexDigitValue (c : Char) : Nat :=
  if c.isDigit then c.toNat - '0'.toNat
  else if 'a' ≤ c then c.toNat - 'a'.toNat + 10
  else c.toNat - 'A'.toNat + 10

/-- The number that hexadecimal digits stand for. -/
def ofHexDigits (digits : List Char) : Nat :=
  digits.foldl (fun n c => 16 * n + hexDigitValue c) 0

/-- The integer of a literal, unless it is out of range. -/
def integerLiteral? (literal : String) : Option Int64 :=
  match literal.toList with
  | '0' :: 'x' :: digits => Integer.ofExact? (ofHexDigits digits)
  | '0' :: 'X' :: digits => Integer.ofExact? (ofHexDigits digits)
  | digits => Integer.ofExact? (Decimal.ofDigits digits)

/-- The float of a literal, unless it is infinite. -/
def floatLiteral? (literal : String) : Option Float :=
  (Decimal.ofLiteral literal.toList).toFloat?

end ScriptLang
