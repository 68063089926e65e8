-- When two values are the same: numbers by their value, collections by their contents,
-- functions, enums and plugins by what they name.
import ScriptLang.Heap
import ScriptLang.Number.Integer

namespace ScriptLang

/-- Whether two values are the same, with `nested` for the values inside collections. -/
def Heap.equalsBy (heap : Heap) (nested : Value → Value → Bool) : Value → Value → Bool
  | .integer a, .integer b => a == b
  | .float a, .float b => a == b
  | .integer a, .float b => Integer.toFloat a == b
  | .float a, .integer b => Integer.toFloat b == a
  | .string a, .string b => a == b
  | .boolean a, .boolean b => a == b
  | .null, .null => true
  | .array a, .array b =>
    a == b ||
      ((heap.array a).size == (heap.array b).size &&
        ((heap.array a).toList.zip (heap.array b).toList).all fun pair => nested pair.1 pair.2)
  | .hash a, .hash b => a == b || (heap.hash a).sameBy nested (heap.hash b)
  | .function a, .function b => a == b
  | .builtin a, .builtin b => a == b
  | .enum a, .enum b => a == b
  | .plugin a, .plugin b => a == b
  | _, _ => false

/-- Whether two values are the same, looking into collections so many levels deep. -/
def Heap.equalsWithin (heap : Heap) : Nat → Value → Value → Bool
  | 0, _, _ => false
  | depth + 1, a, b => heap.equalsBy (heap.equalsWithin depth) a b

/-- Whether two values are the same. A value that does not contain itself is at most as deep
as there are collections. -/
def Heap.equals (heap : Heap) (a b : Value) : Bool :=
  heap.equalsWithin (heap.size + 1) a b

/-- Strict equality: an integer is never a float, and signals are compared too. -/
def Heap.strictEquals (heap : Heap) : Value → Value → Bool
  | .integer _, .float _ => false
  | .float _, .integer _ => false
  | .error a, .error b => a.message == b.message
  | .returning a, .returning b => heap.strictEquals a b
  | .breaking, .breaking => true
  | a, b => heap.equals a b

end ScriptLang
