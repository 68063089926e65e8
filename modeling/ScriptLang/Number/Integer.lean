-- The integers of the language have 64 bits. An operation whose exact result does not
-- fit has no result, so nothing ever wraps around.
import ScriptLang.Number.Exact

namespace ScriptLang

namespace Integer

/-- The least integer. -/
def least : Int := -9223372036854775808

/-- The greatest integer. -/
def greatest : Int := 9223372036854775807

/-- Whether an exact result is an integer of the language. -/
def Fits (n : Int) : Prop := least ≤ n ∧ n ≤ greatest

instance (n : Int) : Decidable (Fits n) := inferInstanceAs (Decidable (_ ∧ _))

/-- The integer with an exact value, if there is one. -/
def ofExact? (n : Int) : Option Int64 :=
  if Fits n then some (Int64.ofInt n) else none

/-- The integer next to an exact value. -/
def clamp (n : Int) : Int64 :=
  Int64.ofInt (max least (min n greatest))

/-- The integer as a position in a sequence; a negative integer is none. -/
def toIndex? (n : Int64) : Option Nat :=
  if 0 ≤ n.toInt then some n.toInt.toNat else none

/-- A length as an integer. A length that no integer holds becomes the greatest one. -/
def ofLength (n : Nat) : Int64 := clamp n

/-- The floating-point number nearest to an integer. -/
def toFloat (n : Int64) : Float :=
  if n.toInt < 0 then -(n.toInt.natAbs.toUInt64.toFloat) else n.toInt.natAbs.toUInt64.toFloat

/-- The power with an exponent of so many bits, if it fits. It is multiplied out by squaring, and
given up where a product does not fit. -/
def powBits? : Nat → Int64 → Nat → Option Int64
  | 0, _, _ => some 1
  | bits + 1, base, exponent =>
    if exponent = 0 then some 1
    else if exponent = 1 then some base
    else do
      let square ← ofExact? (base.toInt * base.toInt)
      let even ← powBits? bits square (exponent / 2)
      if exponent % 2 = 0 then some even else ofExact? (even.toInt * base.toInt)

/-- The power of an integer, if it fits. With an exponent of more than 32 bits nothing is multiplied
out: only the powers of 0, 1 and -1 stay in range. -/
def pow? (base : Int64) (exponent : Nat) : Option Int64 :=
  if exponent < Nat.pow 2 32 then powBits? 32 base exponent
  else if base = 0 ∨ base = 1 then some base
  else if base = -1 then some (if exponent % 2 = 0 then 1 else -1)
  else none

/-! ## Exact values -/

theorem fits_toInt (r : Int64) : Fits r.toInt := by
  have hmin := r.le_toInt
  have hmax := r.toInt_lt
  unfold Fits least greatest
  omega

theorem toInt_ofInt {n : Int} (h : Fits n) : (Int64.ofInt n).toInt = n := by
  obtain ⟨hmin, hmax⟩ := h
  unfold least at hmin
  unfold greatest at hmax
  exact Int64.toInt_ofInt_of_le hmin (by omega)

theorem ofExact?_eq_some_iff {n : Int} {r : Int64} : ofExact? n = some r ↔ r.toInt = n := by
  unfold ofExact?
  constructor
  · intro h
    split at h
    · cases h
      exact toInt_ofInt ‹_›
    · cases h
  · rintro rfl
    rw [if_pos (fits_toInt r), Int64.ofInt_toInt]

end Integer

/-- The integer that a floating-point number equals, if it equals one. -/
def exactInteger? (x : Float) : Option Int64 :=
  match FloatShape.of x with
  | .finite b => if b.isWhole then Integer.ofExact? b.truncate else none
  | _ => none

/-- The integer next to a floating-point number on the side of zero. What is not a number
becomes zero, and what is out of range the end of the range. -/
def saturatedInteger (x : Float) : Int64 :=
  match FloatShape.of x with
  | .nan => 0
  | .infinite negative => Integer.clamp (if negative then Integer.least else Integer.greatest)
  | .finite b => Integer.clamp b.truncate

end ScriptLang
