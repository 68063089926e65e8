-- Room for deep recursion.
import ScriptLang.Machine

namespace ScriptLang

/-- Computes a value on a stack of its own. The value is the same; what it needs of the stack
does not add to what is in use already. -/
def onFreshStack {α : Type} (compute : Unit → α) : α :=
  (Task.spawn compute .dedicated).get

@[simp] theorem onFreshStack_eq {α : Type} (compute : Unit → α) :
    onFreshStack compute = compute () := rfl

namespace Eval

/-- How many levels of nesting share a stack. -/
def levelsPerStack : Nat := 10000

/-- Runs the step of a level of nesting, on a stack of its own at every multiple of
`levelsPerStack`. -/
def withRoom {α : Type} (level : Nat) (step : Eval α) : Eval α := fun m =>
  if level % levelsPerStack = 0 then onFreshStack fun _ => step m else step m

@[simp] theorem withRoom_eq {α : Type} (level : Nat) (step : Eval α) :
    withRoom level step = step := by
  funext m
  simp [withRoom]

end Eval

end ScriptLang
