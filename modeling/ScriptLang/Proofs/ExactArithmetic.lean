-- Integers never wrap around. An operation on integers gives the exact result, or a fault where no
-- integer holds it; a variable whose next value does not fit keeps the value that it has.
import Mathlib.Algebra.Ring.Int.Parity
import ScriptLang.Proofs.SharedScopes

namespace ScriptLang

/-! ## Exact results -/

/-- The integer with an exact value if there is one, and a fault if there is none. -/
inductive Exactly (n : Int) (fault : Fault) : Value → Prop where
  | fits {r : Int64} (h : r.toInt = n) : Exactly n fault (.integer r)
  | overflows (h : ∀ r : Int64, r.toInt ≠ n) : Exactly n fault (.error fault)

namespace Exactly

variable {n : Int} {fault : Fault} {v : Value}

theorem eq_integer (h : Exactly n fault v) {r : Int64} (hr : r.toInt = n) : v = .integer r := by
  cases h with
  | fits hr' => rw [Int64.toInt_inj.mp (hr'.trans hr.symm)]
  | overflows hn => exact absurd hr (hn r)

theorem eq_error (h : Exactly n fault v) (hn : ∀ r : Int64, r.toInt ≠ n) : v = .error fault := by
  cases h with
  | fits hr => exact absurd hr (hn _)
  | overflows _ => rfl

end Exactly

namespace Integer

/-- What does not fit is the value of no integer. -/
theorem toInt_ne_of_not_fits {n : Int} (h : ¬Fits n) (r : Int64) : r.toInt ≠ n := by
  rintro rfl
  exact h (fits_toInt r)

theorem exactly_ofExact? (n : Int) (fault : Fault) :
    Exactly n fault (Operation.integerOr fault (ofExact? n)) := by
  unfold ofExact?
  split
  · exact .fits (toInt_ofInt ‹_›)
  · exact .overflows (toInt_ne_of_not_fits ‹_›)

/-! ## Powers -/

/-- A base other than `0`, `1` and `-1` doubles at least with every factor. -/
theorem two_pow_le_natAbs_pow {b : Int} (h : 2 ≤ b.natAbs) (e : Nat) :
    2 ^ e ≤ (b ^ e).natAbs := by
  rw [Int.natAbs_pow]
  exact Nat.pow_le_pow_left h e

theorem not_fits_pow {b : Int} {e : Nat} (h : 2 ≤ b.natAbs) (he : 64 ≤ e) : ¬Fits (b ^ e) := by
  have hlarge : 2 ^ 64 ≤ (b ^ e).natAbs :=
    Nat.le_trans (Nat.pow_le_pow_right (by decide) he) (two_pow_le_natAbs_pow h e)
  unfold Fits least greatest
  omega

/-- Once a power does not fit, no greater one does. -/
theorem not_fits_pow_of_lt {b : Int} {k e : Nat} (h : ¬Fits (b ^ k)) (hke : k < e) :
    ¬Fits (b ^ e) := by
  have hlarge : 2 ^ 63 ≤ (b ^ k).natAbs := by
    unfold Fits least greatest at h
    omega
  have hbase : 2 ≤ b.natAbs := by
    refine Nat.succ_le_of_lt (Nat.lt_of_not_le fun hsmall => ?_)
    have hone : (b ^ k).natAbs ≤ 1 := by
      rw [Int.natAbs_pow]
      calc b.natAbs ^ k ≤ 1 ^ k := Nat.pow_le_pow_left (by omega) k
        _ = 1 := Nat.one_pow k
    omega
  have hmore : 2 ^ 63 * 2 ≤ (b ^ e).natAbs := by
    rw [Int.natAbs_pow] at hlarge ⊢
    calc 2 ^ 63 * 2 ≤ b.natAbs ^ k * b.natAbs := Nat.mul_le_mul hlarge hbase
      _ = b.natAbs ^ (k + 1) := (Nat.pow_succ _ _).symm
      _ ≤ b.natAbs ^ e := Nat.pow_le_pow_right (by omega) hke
  unfold Fits least greatest
  omega

theorem ofExact?_eq_none_iff {n : Int} : ofExact? n = none ↔ ¬Fits n := by
  unfold ofExact?
  split <;> simp_all

/-- Squaring gives the exact power, or none if it does not fit: what does not fit on the way is not
more than the power. -/
theorem powBits?_eq {bits e : Nat} (a : Int64) (he : e < 2 ^ bits) :
    powBits? bits a e = ofExact? (a.toInt ^ e) := by
  induction bits generalizing a e with
  | zero =>
    obtain rfl : e = 0 := by omega
    rw [Int.pow_zero]
    rfl
  | succ bits ih =>
    unfold powBits?
    split
    · rename_i hzero
      rw [hzero, Int.pow_zero]
      rfl
    split
    · rename_i hone
      rw [hone, Int.pow_one]
      exact (ofExact?_eq_some_iff.mpr rfl).symm
    rename_i hzero hone
    cases hsquare : ofExact? (a.toInt * a.toInt) with
    | none =>
      rw [ofExact?_eq_none_iff, ← pow_two] at hsquare
      refine (ofExact?_eq_none_iff.mpr ?_).symm
      rcases Nat.lt_or_eq_of_le (show 2 ≤ e by omega) with hlt | rfl
      · exact not_fits_pow_of_lt hsquare hlt
      · exact hsquare
    | some square =>
      have heven : square.toInt ^ (e / 2) = a.toInt ^ (2 * (e / 2)) := by
        rw [ofExact?_eq_some_iff.mp hsquare, ← pow_two, Int.pow_mul]
      rw [Option.bind_eq_bind, Option.bind_some, ih square (by omega), heven]
      split
      · rename_i hparity
        rw [show 2 * (e / 2) = e by omega]
        cases ofExact? (a.toInt ^ e) <;> rfl
      · rename_i hparity
        have hnext : e = 2 * (e / 2) + 1 := by omega
        cases hrest : ofExact? (a.toInt ^ (2 * (e / 2))) with
        | none =>
          have hnone := not_fits_pow_of_lt (ofExact?_eq_none_iff.mp hrest) (Nat.lt_succ_self _)
          rw [hnext]
          exact (ofExact?_eq_none_iff.mpr hnone).symm
        | some even =>
          rw [Option.bind_some, ofExact?_eq_some_iff.mp hrest, ← pow_succ, ← hnext]

theorem pow_of_minus_one (e : Nat) : (-1 : Int) ^ e = if e % 2 = 0 then 1 else -1 := by
  split
  · exact Even.neg_one_pow (Nat.even_iff.mpr ‹_›)
  · exact Odd.neg_one_pow (Nat.odd_iff.mpr (by omega))

/-- A power is exact, or none if it does not fit. With more than 32 bits in the exponent only bases
that do not grow have one that fits. -/
theorem pow?_eq (a : Int64) (e : Nat) : pow? a e = ofExact? (a.toInt ^ e) := by
  have hpow : Nat.pow 2 32 = 2 ^ 32 := rfl
  have hbase (n : Int64) : a = n ↔ a.toInt = n.toInt := Int64.toInt_inj.symm
  unfold pow?
  rw [hpow]
  split
  · exact powBits?_eq a ‹_›
  rename_i hlong
  split
  · rename_i hsmall
    refine (ofExact?_eq_some_iff.mpr ?_).symm
    rcases hsmall with rfl | rfl
    · exact (Int.zero_pow (by omega)).symm
    · exact (Int.one_pow).symm
  split
  · rename_i hminus
    refine (ofExact?_eq_some_iff.mpr ?_).symm
    rw [hminus]
    change _ = (-1 : Int) ^ e
    rw [pow_of_minus_one]
    split <;> rfl
  · rename_i hnotSmall hnotMinus
    have hzero : a.toInt ≠ 0 := fun h => hnotSmall (.inl ((hbase 0).mpr h))
    have hone : a.toInt ≠ 1 := fun h => hnotSmall (.inr ((hbase 1).mpr h))
    have hminus : a.toInt ≠ -1 := fun h => hnotMinus ((hbase (-1)).mpr h)
    exact (ofExact?_eq_none_iff.mpr (not_fits_pow (by omega) (by omega))).symm

theorem exactly_pow? (a : Int64) (e : Nat) (fault : Fault) :
    Exactly (a.toInt ^ e) fault (Operation.integerOr fault (pow? a e)) := by
  rw [pow?_eq]
  exact exactly_ofExact? _ fault

/-! ## Remainders -/

/-- A remainder is no larger than what is divided. -/
theorem fits_tmod (a b : Int64) : Fits (a.toInt.tmod b.toInt) := by
  have ha := fits_toInt a
  have habs : (a.toInt.tmod b.toInt).natAbs ≤ a.toInt.natAbs := by
    rw [Int.natAbs_tmod]
    exact Nat.mod_le _ _
  unfold Fits least greatest at *
  rcases Int.le_total 0 a.toInt with h | h
  · omega
  · have hneg : a.toInt.tmod b.toInt ≤ 0 := by
      have := Int.tmod_nonneg b.toInt (Int.neg_nonneg_of_nonpos h)
      rw [Int.neg_tmod] at this
      omega
    omega

end Integer

/-! ## Operators between integers -/

/-- What the operators make of two integers. Sums, differences, products, exact quotients and powers
are exact or overflow; only a quotient that is not exact, and a negative exponent, give a float. -/
structure ExactOperators (a b : Int64) (result : BinaryOp → Value) : Prop where
  add : Exactly (a.toInt + b.toInt) (.overflow .add a b) (result .add)
  sub : Exactly (a.toInt - b.toInt) (.overflow .sub a b) (result .sub)
  mul : Exactly (a.toInt * b.toInt) (.overflow .mul a b) (result .mul)
  div_zero : b.toInt = 0 → result .div = .error .divisionByZero
  mod_zero : b.toInt = 0 → result .mod = .error .divisionByZero
  div_exact : b.toInt ≠ 0 → ∀ q, q * b.toInt = a.toInt →
    Exactly q (.overflow .div a b) (result .div)
  div_float : (∃ x, result .div = .float x) ↔ b.toInt ≠ 0 ∧ ¬b.toInt ∣ a.toInt
  mod_overflow : a.toInt = Integer.least → b.toInt = -1 →
    result .mod = .error (.overflow .mod a b)
  mod_exact : b.toInt ≠ 0 → ¬(a.toInt = Integer.least ∧ b.toInt = -1) →
    ∃ r : Int64, r.toInt = a.toInt.tmod b.toInt ∧ result .mod = .integer r
  pow : 0 ≤ b.toInt → Exactly (a.toInt ^ b.toInt.toNat) (.overflow .pow a b) (result .pow)

namespace Operation

theorem eq_zero_iff (b : Int64) : b = 0 ↔ b.toInt = 0 := by
  rw [← Int64.toInt_inj]
  rfl

theorem eq_minus_one_iff (b : Int64) : b = -1 ↔ b.toInt = -1 := by
  rw [← Int64.toInt_inj]
  rfl

variable (a b : Int64)

theorem div_of_exact (hb : b.toInt ≠ 0) {q : Int} (hq : q * b.toInt = a.toInt) :
    Exactly q (.overflow .div a b) (integers .div a b) := by
  have hmod : a.toInt.tmod b.toInt = 0 := by
    rw [← hq]
    exact Int.mul_tmod_left q b.toInt
  have hdiv : a.toInt.tdiv b.toInt = q := by
    rw [← hq]
    exact Int.mul_tdiv_cancel q hb
  unfold integers
  simp only [eq_zero_iff, hb, hmod, hdiv, if_true, if_false]
  exact Integer.exactly_ofExact? q _

/-- A quotient is a float exactly if it is not exact. -/
theorem div_float_iff :
    (∃ x, integers .div a b = .float x) ↔ b.toInt ≠ 0 ∧ ¬b.toInt ∣ a.toInt := by
  constructor
  · rintro ⟨x, hx⟩
    have hb : b.toInt ≠ 0 := by
      intro hzero
      unfold integers at hx
      simp [eq_zero_iff, hzero] at hx
    refine ⟨hb, ?_⟩
    rintro ⟨q, hq⟩
    have hexact := div_of_exact a b hb (hq.trans (Int.mul_comm _ _)).symm
    rw [hx] at hexact
    cases hexact
  · rintro ⟨hb, hn⟩
    have hmod : a.toInt.tmod b.toInt ≠ 0 := fun h => hn (Int.dvd_of_tmod_eq_zero h)
    unfold integers
    simp only [eq_zero_iff, hb, hmod, if_false]
    exact ⟨_, rfl⟩

theorem mod_of_fits (hb : b.toInt ≠ 0) (h : ¬(a.toInt = Integer.least ∧ b.toInt = -1)) :
    ∃ r : Int64, r.toInt = a.toInt.tmod b.toInt ∧ integers .mod a b = .integer r := by
  have hfits := Integer.fits_tmod a b
  have hno : ¬(b = -1 ∧ a.toInt = Integer.least) := by
    rw [eq_minus_one_iff]
    exact fun hboth => h ⟨hboth.2, hboth.1⟩
  refine ⟨_, Integer.toInt_ofInt hfits, ?_⟩
  unfold integers Integer.ofExact?
  simp only [eq_zero_iff, hb, hno, hfits, if_true, if_false]
  rfl

theorem exactOperators (heap : Heap) :
    ExactOperators a b fun op => binary heap op (.integer a) (.integer b) where
  add := Integer.exactly_ofExact? _ _
  sub := Integer.exactly_ofExact? _ _
  mul := Integer.exactly_ofExact? _ _
  div_zero hb := by simp [binary, integers, eq_zero_iff, hb]
  mod_zero hb := by simp [binary, integers, eq_zero_iff, hb]
  div_exact hb _ hq := div_of_exact a b hb hq
  div_float := div_float_iff a b
  mod_overflow ha hb := by simp [binary, integers, eq_zero_iff, eq_minus_one_iff, ha, hb]
  mod_exact hb h := mod_of_fits a b hb h
  pow hb := by
    have hnot : ¬b.toInt < 0 := by omega
    simp only [binary, integers, hnot, if_false]
    exact Integer.exactly_pow? a _ _

end Operation

/-! ## Variables -/

/-- By how much an operator steps a variable. -/
def StepOp.change : StepOp → Int
  | .increment => 1
  | .decrement => -1

theorem Operation.exactly_stepped (op : StepOp) (name : String) (n : Int64) :
    Exactly (n.toInt + op.change) (.stepOverflow name op)
      (stepped op name (.integer n)) := by
  cases op <;> exact Integer.exactly_ofExact? _ _

namespace Eval

theorem assign_run (name : String) (value : Value) (m : Machine) :
    assign name value m = .ok () { m with store := { m.store with
      scopes := (m.store.scopes.assign? m.scope name value).getD m.store.scopes } } := by
  obtain ⟨⟨heap, scopes, definitions⟩, scope, depth, imports, sink, inputs⟩ := m
  unfold assign Scopes.assign?
  dsimp only
  cases scopes.owner? scope name <;> rfl

theorem step_run {op : StepOp} {name : String} {m : Machine} {current : Value}
    (h : m.store.scopes.get? m.scope name = some current) :
    step op name m =
      let next := Operation.stepped op name current
      if next.isError then .ok next m else .ok current { m with store := { m.store with
        scopes := (m.store.scopes.assign? m.scope name next).getD m.store.scopes } } := by
  have hread : (lookup? name : Eval (Option Value)) m = .ok (some current) m := by
    rw [← h]
    rfl
  unfold step
  rw [bind_run, hread]
  dsimp only
  split
  · rfl
  · rw [bind_run, assign_run]
    rfl

end Eval

/-- A variable that is stepped from an integer: it has its next value afterwards and nothing else
has changed, or there is no such integer and nothing has changed at all. -/
theorem stepped_exactly (op : StepOp) {name : String} {m : Machine} {n : Int64}
    (h : m.store.scopes.get? m.scope name = some (.integer n)) :
    (∀ r : Int64, r.toInt = n.toInt + op.change → ∃ scopes,
      m.store.scopes.assign? m.scope name (.integer r) = some scopes ∧
      scopes.get? m.scope name = some (.integer r) ∧
      Eval.step op name m = .ok (.integer n) { m with store := { m.store with scopes } }) ∧
    ((∀ r : Int64, r.toInt ≠ n.toInt + op.change) →
      Eval.step op name m = .ok (.error (.stepOverflow name op)) m) := by
  have hexact := Operation.exactly_stepped op name n
  rw [Eval.step_run h]
  dsimp only
  constructor
  · intro r hr
    rw [hexact.eq_integer hr]
    cases howner : m.store.scopes.owner? m.scope name with
    | none => simp [Scopes.get?, howner] at h
    | some owner =>
      have hb := Scopes.containsLocal_of_ownerWithin howner
      refine ⟨m.store.scopes.define owner name (.integer r), ?_, ?_, ?_⟩
      · simp [Scopes.assign?, howner]
      · simp [Scopes.get?_redefine hb, howner]
      · simp [Scopes.assign?, howner, Value.isError]
  · intro hn
    rw [hexact.eq_error hn]
    rfl

/-! ## The law -/

theorem exactly_abs (store : Store) (n : Int64) :
    ∃ v, store.callMethod (.integer n) "abs" [] = (v, store) ∧
      Exactly n.toInt.natAbs (.absOverflow n) v := by
  have hexact := Integer.exactly_ofExact? n.toInt.natAbs (.absOverflow n)
  refine ⟨_, ?_, hexact⟩
  change store.onHeap (Method.absolute n) = _
  unfold Method.absolute
  cases Integer.ofExact? n.toInt.natAbs <;> rfl

/-- Integers never wrap around: the operators, the sign, the absolute value and the steps of a
variable give the exact integer, or a fault where there is none. A fault changes nothing. -/
theorem integers_never_wrap :
    (∀ heap a b, ExactOperators a b fun op =>
      Operation.binary heap op (.integer a) (.integer b)) ∧
    (∀ n : Int64, Exactly (-n.toInt) (.negateOverflow n)
      (Operation.unary .negate (.integer n))) ∧
    (∀ (store : Store) (n : Int64), ∃ v, store.callMethod (.integer n) "abs" [] = (v, store) ∧
      Exactly n.toInt.natAbs (.absOverflow n) v) ∧
    ∀ (op : StepOp) (name : String) (m : Machine) (n : Int64),
      m.store.scopes.get? m.scope name = some (.integer n) →
      (∀ r : Int64, r.toInt = n.toInt + op.change → ∃ scopes,
        m.store.scopes.assign? m.scope name (.integer r) = some scopes ∧
        scopes.get? m.scope name = some (.integer r) ∧
        Eval.step op name m = .ok (.integer n) { m with store := { m.store with scopes } }) ∧
      ((∀ r : Int64, r.toInt ≠ n.toInt + op.change) →
        Eval.step op name m = .ok (.error (.stepOverflow name op)) m) := by
  refine ⟨fun heap a b => Operation.exactOperators a b heap, ?_, exactly_abs, ?_⟩
  · intro n
    exact Integer.exactly_ofExact? _ _
  · intro op name m n h
    exact stepped_exactly op h

/-- A state in which the name `x` is bound to the greatest integer. -/
def atGreatest : Machine :=
  let m := Machine.start Host.plain .unlimited 0
  let scopes := m.store.scopes.define m.scope "x" (.integer 9223372036854775807)
  { m with store := { m.store with scopes } }

/-- The greatest integer has no next one, and is kept; the least one has no opposite. -/
theorem ends_of_range_are_faults :
    atGreatest.store.scopes.get? atGreatest.scope "x" = some (.integer 9223372036854775807) ∧
      Eval.step .increment "x" atGreatest =
        .ok (.error (.stepOverflow "x" .increment)) atGreatest ∧
      Operation.binary .empty .mul (.integer (-9223372036854775808)) (.integer (-1)) =
        .error (.overflow .mul (-9223372036854775808) (-1)) := by
  obtain ⟨hoperators, -, -, hsteps⟩ := integers_never_wrap
  have hx : atGreatest.store.scopes.get? atGreatest.scope "x" =
      some (.integer 9223372036854775807) := rfl
  have hnext := Integer.toInt_ne_of_not_fits
    (show ¬Integer.Fits ((9223372036854775807 : Int64).toInt + StepOp.increment.change) by decide)
  have hproduct := Integer.toInt_ne_of_not_fits
    (show ¬Integer.Fits ((-9223372036854775808 : Int64).toInt * (-1 : Int64).toInt) by decide)
  refine ⟨hx, (hsteps .increment "x" atGreatest _ hx).2 hnext, ?_⟩
  exact (hoperators .empty (-9223372036854775808) (-1)).mul.eq_error hproduct

end ScriptLang
