-- What operators do to values.
import ScriptLang.Value.Equality
import ScriptLang.Number.Arithmetic

namespace ScriptLang

namespace Operation

/-- An integer result, or the fault of a result that does not fit. -/
def integerOr (fault : Fault) : Option Int64 → Value
  | some n => .integer n
  | none => .error fault

/-- A binary operator between integers. Arithmetic is exact or a fault; only an inexact
division and a negative exponent give floats. -/
def integers (op : BinaryOp) (a b : Int64) : Value :=
  let exact (n : Int) : Value := integerOr (.overflow op a b) (Integer.ofExact? n)
  match op with
  | .add => exact (a.toInt + b.toInt)
  | .sub => exact (a.toInt - b.toInt)
  | .mul => exact (a.toInt * b.toInt)
  | .div =>
    if b = 0 then .error .divisionByZero
    else if a.toInt.tmod b.toInt = 0 then exact (a.toInt.tdiv b.toInt)
    else .float (Integer.toFloat a / Integer.toFloat b)
  | .mod =>
    if b = 0 then .error .divisionByZero
    else if b = -1 ∧ a.toInt = Integer.least then .error (.overflow op a b)
    else exact (a.toInt.tmod b.toInt)
  | .pow =>
    if b.toInt < 0 then .float (Float.pow (Integer.toFloat a) (Integer.toFloat b))
    else integerOr (.overflow op a b) (Integer.pow? a b.toInt.toNat)
  | .less => .boolean (a.toInt < b.toInt)
  | .greater => .boolean (b.toInt < a.toInt)
  | .lessEqual => .boolean (a.toInt ≤ b.toInt)
  | .greaterEqual => .boolean (b.toInt ≤ a.toInt)
  | .equal => .boolean (a == b)
  | .notEqual => .boolean (a != b)
  | .and | .or => .boolean true

/-- A binary operator between floats. -/
def floats (op : BinaryOp) (a b : Float) : Value :=
  match op with
  | .add => .float (a + b)
  | .sub => .float (a - b)
  | .mul => .float (a * b)
  | .div => .float (a / b)
  | .mod => .float (floatRemainder a b)
  | .pow => .float (Float.pow a b)
  | .less => .boolean (a < b)
  | .greater => .boolean (b < a)
  | .lessEqual => .boolean (a ≤ b)
  | .greaterEqual => .boolean (b ≤ a)
  | .equal => .boolean (a == b)
  | .notEqual => .boolean (a != b)
  | .and | .or => .boolean true

/-- A binary operator between strings. -/
def strings (op : BinaryOp) (a b : String) : Value :=
  match op with
  | .add => .string (a ++ b)
  | .equal => .boolean (a == b)
  | .notEqual => .boolean (a != b)
  | _ => .error (.unknownOperator .string op .string)

/-- A binary operator between values that are not both numbers or both strings. -/
def others (heap : Heap) (op : BinaryOp) (left right : Value) : Value :=
  match op with
  | .equal => .boolean (heap.equals left right)
  | .notEqual => .boolean (!heap.equals left right)
  | _ =>
    if left.kind = right.kind then .error (.unknownOperator left.kind op right.kind)
    else .error (.typeMismatch left.kind op right.kind)

/-- A binary operator between values. Both operands of `&&` and `||` are there already. -/
def binary (heap : Heap) (op : BinaryOp) (left right : Value) : Value :=
  match op with
  | .and => .boolean (left.isTruthy && right.isTruthy)
  | .or => .boolean (left.isTruthy || right.isTruthy)
  | _ =>
    match left, right with
    | .integer a, .integer b => integers op a b
    | .integer a, .float b => floats op (Integer.toFloat a) b
    | .float a, .integer b => floats op a (Integer.toFloat b)
    | .float a, .float b => floats op a b
    | .string a, .string b => strings op a b
    | _, _ => others heap op left right

/-- An operator before its operand. -/
def unary (op : UnaryOp) (operand : Value) : Value :=
  match op, operand with
  | .not, value => .boolean (!value.isTruthy)
  | .negate, .integer n => integerOr (.negateOverflow n) (Integer.ofExact? (-n.toInt))
  | .negate, .float x => .float (-x)
  | .negate, value => .error (.unknownNegate value.kind)

/-- The value of a variable after `++` or `--`, given its name and its value before. -/
def stepped (op : StepOp) (name : String) (current : Value) : Value :=
  match op, current with
  | .increment, .integer n =>
    integerOr (.stepOverflow name op) (Integer.ofExact? (n.toInt + 1))
  | .decrement, .integer n =>
    integerOr (.stepOverflow name op) (Integer.ofExact? (n.toInt - 1))
  | .increment, .float x => .float (x + 1.0)
  | .decrement, .float x => .float (x - 1.0)
  | _, value => .error (.unknownStep value.kind op)

end Operation

end ScriptLang
