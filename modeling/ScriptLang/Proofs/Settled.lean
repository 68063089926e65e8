-- Operators make ordinary values and errors only, never a return or a break.
import ScriptLang.Operation

namespace ScriptLang

namespace Value

/-- Whether a value is neither a return nor a break. -/
def isSettled : Value → Bool
  | returning _ => false
  | breaking => false
  | _ => true

theorem isSignal_eq_false {v : Value} (h : v.isSettled = true) (he : v.isError = false) :
    v.isSignal = false := by
  cases v <;> simp_all [isSettled, isError, isSignal]

theorem isSettled_of_plain {v : Value} (h : v.isSignal = false) : v.isSettled = true := by
  cases v <;> simp_all [isSettled, isSignal]

/-- What is left of a return, a break or any other value is settled if the value inside a return
is an ordinary one. -/
theorem isSettled_settled {v : Value} (h : ∀ w, v = returning w → w.isSignal = false) :
    v.settled.isSettled = true := by
  cases v with
  | returning w => exact isSettled_of_plain (h w rfl)
  | _ => rfl

end Value

namespace Operation

theorem integerOr_isSettled (f : Fault) (n : Option Int64) : (integerOr f n).isSettled = true := by
  cases n <;> rfl

theorem integers_isSettled (op : BinaryOp) (a b : Int64) : (integers op a b).isSettled = true := by
  unfold integers
  cases op <;> simp only
  case div =>
    split
    · rfl
    · split
      · exact integerOr_isSettled _ _
      · rfl
  case mod =>
    split
    · rfl
    · split
      · rfl
      · exact integerOr_isSettled _ _
  case pow =>
    split
    · rfl
    · exact integerOr_isSettled _ _
  all_goals first | rfl | exact integerOr_isSettled _ _

theorem floats_isSettled (op : BinaryOp) (a b : Float) : (floats op a b).isSettled = true := by
  cases op <;> rfl

theorem strings_isSettled (op : BinaryOp) (a b : String) : (strings op a b).isSettled = true := by
  cases op <;> rfl

theorem others_isSettled (heap : Heap) (op : BinaryOp) (l r : Value) :
    (others heap op l r).isSettled = true := by
  unfold others
  split
  · rfl
  · rfl
  · split <;> rfl

theorem binary_isSettled (heap : Heap) (op : BinaryOp) (l r : Value) :
    (binary heap op l r).isSettled = true := by
  unfold binary
  split
  · rfl
  · rfl
  · split
    · exact integers_isSettled _ _ _
    · exact floats_isSettled _ _ _
    · exact floats_isSettled _ _ _
    · exact floats_isSettled _ _ _
    · exact strings_isSettled _ _ _
    · exact others_isSettled _ _ _ _

theorem unary_isSettled (op : UnaryOp) (v : Value) : (unary op v).isSettled = true := by
  unfold unary
  split
  · rfl
  · exact integerOr_isSettled _ _
  · rfl
  · rfl

theorem stepped_isSettled (op : StepOp) (name : String) (v : Value) :
    (stepped op name v).isSettled = true := by
  unfold stepped
  split
  · exact integerOr_isSettled _ _
  · exact integerOr_isSettled _ _
  · rfl
  · rfl
  · rfl

end Operation

end ScriptLang
