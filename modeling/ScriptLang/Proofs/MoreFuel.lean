-- Fuel bounds how deep evaluation may nest and how often a loop may run, and does nothing else: an
-- evaluation that comes to an end within a bound comes to the same end within every larger one. So
-- what an evaluation comes to can be said without a bound.
import ScriptLang.Proofs.Rules

namespace ScriptLang

namespace Eval

variable {α β : Type}

/-! ## Evaluations that come to an end -/

/-- The end of an evaluation, and not of its fuel. -/
def Ends (r : EStateM.Result Stop Machine α) : Prop := ∀ m, r ≠ .error .outOfFuel m

theorem ends_ok (a : α) (m : Machine) : Ends (.ok a m : EStateM.Result Stop Machine α) := nofun

/-- What holds of the results of `x`, and that `y` comes to every end that `x` comes to. -/
structure Outlasts (x y : Eval α) (P : α → Prop) : Prop where
  result : ∀ m a after, x m = .ok a after → P a
  same : ∀ m, Ends (x m) → y m = x m

namespace Outlasts

variable {x y : Eval α} {f g : α → Eval β} {P : α → Prop} {Q : β → Prop}

theorem refl (h : ∀ m a after, x m = .ok a after → P a) : Outlasts x x P := ⟨h, fun _ _ => rfl⟩

theorem pure {a : α} (h : P a) : Outlasts (pure a) (pure a) P :=
  refl <| by
    rintro m _ _ ⟨⟩
    exact h

theorem bind (hx : Outlasts x y P) (hf : ∀ a, P a → Outlasts (f a) (g a) Q) :
    Outlasts (x >>= f) (y >>= g) Q where
  result m b after hb := by
    rw [bind_run] at hb
    cases hr : x m with
    | error stop between =>
      rw [hr] at hb
      cases hb
    | ok a between =>
      rw [hr] at hb
      exact (hf a (hx.result m a between hr)).result between b after hb
  same m hends := by
    rw [bind_run] at hends ⊢
    rw [bind_run]
    cases hr : x m with
    | error stop between =>
      rw [hr] at hends
      rw [hx.same m (hr ▸ fun last h => hends last (by cases h; rfl)), hr]
    | ok a between =>
      rw [hr] at hends
      rw [hx.same m (hr ▸ ends_ok a between), hr]
      exact (hf a (hx.result m a between hr)).same between hends

theorem within (h : Outlasts x y P) (b : Bracket) : Outlasts (within b x) (within b y) P where
  result m a after ha := by
    unfold Eval.within at ha
    split at ha
    · rename_i r between hr
      cases ha
      exact h.result _ _ _ hr
    · cases ha
  same m hends := by
    have hx : Ends (x (b.enter m)) := by
      intro last hr
      refine hends (b.leave m last) ?_
      unfold Eval.within
      rw [hr]
    unfold Eval.within
    rw [h.same _ hx]

/-- Without fuel nothing comes to an end. -/
theorem exhausted (y : Eval α) (P : α → Prop) : Outlasts exhausted y P where
  result _ _ _ := nofun
  same m hends := absurd rfl (hends m)

end Outlasts

end Eval

open Eval

/-- Evaluations that come to every end that evaluations with less fuel come to. -/
def outlasting (host : Host) : Rules host Eval Eval :=
  BracketRules.rules
    { Kept := fun _ => True
      Given := fun _ => True
      Flows := fun _ => True
      Rel := Outlasts
      kept_of_plain := fun _ => trivial
      given_of_kept := fun _ => trivial
      given_error := fun _ => trivial
      given_settled := fun _ => trivial
      flows_of_given := fun _ => trivial
      flows_breaking := trivial
      flows_returning := fun _ => trivial
      mono := fun h hpq => ⟨fun m a after hr => hpq a (h.result m a after hr), h.same⟩
      pure := .pure
      bind := .bind
      act := fun h => .refl fun _ _ _ hr => h.result_of_true hr
      evaluates := fun _ => .pure trivial
      executes := fun _ => .pure trivial
      nested := fun level _ _ _ h => by
        rw [nested_run, nested_run]
        exact h
      calls := fun _ _ => .pure trivial
      frame := .refl fun _ _ _ _ => trivial
      newScope := fun _ => .refl fun _ _ _ _ => trivial
      overflow := fun _ => .refl nofun
      inBracket := fun b _ _ _ h => h.within b
      inFile := fun _ _ _ _ h => h }

namespace Eval

variable {host : Host} {eval eval' : EvalExpr Eval} {fuel fuel' : Nat}

theorem outlasts_passes (he : (outlasting host).Evaluates eval eval')
    (condition clause : Option Expr) (body : Block) (h : fuel ≤ fuel') (result : Value) :
    Outlasts (passes eval condition clause body fuel result)
      (passes eval' condition clause body fuel' result) fun _ => True := by
  let R := outlasting host
  induction fuel generalizing fuel' result with
  | zero => exact .exhausted _ _
  | succ fuel ih =>
    obtain ⟨fuel', rfl⟩ := Nat.exists_eq_add_of_le' (Nat.lt_of_lt_of_le fuel.succ_pos h)
    refine R.bind (R.endsBefore he condition trivial) fun o _ => ?_
    cases o with
    | some v => exact R.pure trivial
    | none =>
      refine R.bind (R.block he body) fun v _ => ?_
      cases v with
      | breaking => exact R.pure trivial
      | _ =>
        refine R.ite (fun _ => R.pure trivial) fun _ => R.bind (R.update he clause) fun o _ => ?_
        cases o with
        | some signal => exact R.pure trivial
        | none => exact ih (Nat.le_of_succ_le_succ h) _

theorem outlasts_exprStep (he : (outlasting host).Evaluates eval eval') (h : fuel ≤ fuel')
    (e : Expr) :
    Outlasts (exprStep host fuel eval e) (exprStep host fuel' eval' e) fun _ => True := by
  let R := outlasting host
  cases e with
  | loop initializer condition update body _ =>
    refine R.scope (R.bind (R.start he initializer) fun o _ => ?_)
    cases o with
    | some signal => exact R.pure trivial
    | none => exact outlasts_passes he condition update body h .null
  -- No other expression spends the fuel of its own step.
  | _ => exact R.exprStep he fuel _

theorem expr_succ (fuel : Nat) (e : Expr) :
    (expr host (fuel + 1) e : Eval Value) = exprStep host fuel (expr host fuel) e := by
  change nested fuel (exprStep host fuel (expr host fuel) e) = _
  exact nested_run fuel _

/-- More fuel keeps an evaluation that came to an end. The induction is on how deep evaluation may
nest. -/
theorem outlasts_expr (h : fuel ≤ fuel') :
    (outlasting host).Evaluates (expr host fuel) (expr host fuel') := by
  induction fuel generalizing fuel' with
  | zero => exact fun _ => .exhausted _ _
  | succ fuel ih =>
    obtain ⟨fuel', rfl⟩ := Nat.exists_eq_add_of_le' (Nat.lt_of_lt_of_le fuel.succ_pos h)
    have hless : fuel ≤ fuel' := Nat.le_of_succ_le_succ h
    intro e
    rw [expr_succ, expr_succ]
    exact outlasts_exprStep (ih hless) hless e

/-! ## What an evaluation comes to -/

/-- Evaluations with a bound, of which those with more fuel come to every end that those with less
fuel come to. -/
def Grows (x : Nat → Eval α) : Prop :=
  ∀ fuel fuel' m, fuel ≤ fuel' → Ends (x fuel m) → x fuel' m = x fuel m

theorem grows_expr (host : Host) (e : Expr) : Grows fun fuel => (expr host fuel e : Eval Value) :=
  fun _ _ m h => (outlasts_expr h e).same m

theorem grows_statement (host : Host) (s : Statement) :
    Grows fun fuel => (statement (expr host fuel) s : Eval Value) :=
  fun _ _ m h => ((outlasting host).statement (outlasts_expr h) s).same m

/-- From the state `m` an evaluation ends with `r`, given enough fuel. -/
def ComesTo (x : Nat → Eval α) (m : Machine) (r : EStateM.Result Stop Machine α) : Prop :=
  Ends r ∧ ∃ fuel, x fuel m = r

/-- There is one end at most. -/
theorem ComesTo.unique {x : Nat → Eval α} (hx : Grows x) {m : Machine}
    {r r' : EStateM.Result Stop Machine α} (h : ComesTo x m r) (h' : ComesTo x m r') : r = r' := by
  obtain ⟨hends, fuel, rfl⟩ := h
  obtain ⟨hends', fuel', rfl⟩ := h'
  rcases Nat.le_total fuel fuel' with hle | hle
  · exact (hx fuel fuel' m hle hends).symm
  · exact hx fuel' fuel m hle hends'

/-- Two evaluations of which one needs a little more fuel come to the same end. -/
theorem comesTo_congr {x y : Nat → Eval α} (hx : Grows x) (hy : Grows y) {m : Machine} {d : Nat}
    (h : ∀ fuel, x (fuel + d) m = y (fuel + d + 1) m) (r : EStateM.Result Stop Machine α) :
    ComesTo x m r ↔ ComesTo y m r := by
  constructor
  · rintro ⟨hends, fuel, rfl⟩
    refine ⟨hends, fuel + d + 1, ?_⟩
    rw [← h, hx fuel (fuel + d) m (Nat.le_add_right fuel d) hends]
  · rintro ⟨hends, fuel, rfl⟩
    refine ⟨hends, fuel + d, ?_⟩
    rw [h, hy fuel (fuel + d + 1) m (by omega) hends]

end Eval

end ScriptLang
