-- Loops.
import ScriptLang.Eval.Statement

namespace ScriptLang

namespace Eval

variable {M : Type → Type} [MonadMachine M]

/-- Tests the condition of a loop whose last pass gave `result`. Gives the result of the loop if
it ends here. -/
@[specialize] def endsBefore (eval : EvalExpr M) (condition : Option Expr) (result : Value) :
    M (Option Value) := do
  match condition with
  | none => return none
  | some expr =>
    let value ← eval expr
    if value.isSignal then return some value
    else if value.isTruthy then return none
    else return some result

/-- Runs a clause of a loop. Gives the signal that it ends in, if there is one. -/
@[specialize] def signalOf (step : M Value) : M (Option Value) := do
  let value ← step
  if value.isSignal then return some value else return none

/-- Runs the last clause of a loop. -/
@[specialize] def update (eval : EvalExpr M) (clause : Option Expr) : M (Option Value) :=
  match clause with
  | none => return none
  | some expr => signalOf (eval expr)

/-- Runs passes of a loop, at most so many. The last pass before gave `result`. -/
@[specialize] def passes (eval : EvalExpr M) (condition clause : Option Expr) (body : Block) :
    Nat → Value → M Value
  | 0, _ => exhausted
  | fuel + 1, result => do
    match ← endsBefore eval condition result with
    | some value => return value
    | none =>
      let value ← block eval body
      match value with
      | .breaking => return .null
      | _ =>
        if value.isSignal then return value
        else
          match ← update eval clause with
          | some signal => return signal
          | none => passes eval condition clause body fuel value

/-- Runs the first clause of a loop. -/
@[specialize] def start (eval : EvalExpr M) (initializer : Option Statement) : M (Option Value) :=
  match initializer with
  | none => return none
  | some first => signalOf (statement eval first)

/-- Runs a loop in a scope of its own. A break in the body ends it with `null`. -/
@[specialize] def loop (fuel : Nat) (eval : EvalExpr M) (initializer : Option Statement)
    (condition clause : Option Expr) (body : Block) : M Value :=
  inNewScope do
    match ← start eval initializer with
    | some signal => return signal
    | none => passes eval condition clause body fuel .null

end Eval

end ScriptLang
