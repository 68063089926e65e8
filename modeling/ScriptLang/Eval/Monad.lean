-- What an evaluation is made of. It takes steps on the machine, runs parts of itself inside
-- brackets, and tells what it comes to; how a monad puts these together is up to the monad.
import ScriptLang.Eval.Stack

namespace ScriptLang

/-- What an evaluation comes to. -/
inductive Event where
  /-- An expression is evaluated. -/
  | evaluates (e : Expr)
  /-- A statement is carried out. -/
  | executes (s : Statement)
  /-- A function is called with as many arguments as it takes. -/
  | calls (closure : Closure) (args : List Value)

/-- A monad that programs are evaluated in. -/
class MonadMachine (M : Type → Type) extends Monad M where
  /-- Takes a step on the machine. -/
  act {α : Type} : Eval α → M α
  /-- Evaluates inside a bracket, and leaves the bracket whatever comes of it. -/
  inBracket {α : Type} : Eval.Bracket → M α → M α
  /-- Evaluates at a level of nesting. -/
  nested {α : Type} : Nat → M α → M α
  /-- Evaluates what a file holds. -/
  inFile {α : Type} : String → M α → M α
  /-- Tells what comes next. -/
  note : Event → M Unit

export MonadMachine (inBracket nested inFile note)

instance {M : Type → Type} [MonadMachine M] : MonadLift Eval M := ⟨MonadMachine.act⟩

/-- A run takes the steps one after the other and tells nothing. -/
instance : MonadMachine Eval where
  act step := step
  inBracket := Eval.within
  nested := Eval.withRoom
  inFile _ x := x
  note _ := return ()

@[simp] theorem nested_run {α : Type} (level : Nat) (x : Eval α) : nested level x = x :=
  Eval.withRoom_eq level x

theorem bind_run {ε α β : Type} (x : EStateM ε Machine α) (f : α → EStateM ε Machine β)
    (m : Machine) :
    (x >>= f) m = match x m with
      | .ok a between => f a between
      | .error raised between => .error raised between := by
  change EStateM.bind x f m = _
  unfold EStateM.bind
  cases x m <;> rfl

/-- An evaluation with a second part gives a result if both parts do. -/
theorem bind_eq_ok_iff {ε α β : Type} {x : EStateM ε Machine α} {f : α → EStateM ε Machine β}
    {m after : Machine} {b : β} : (x >>= f) m = .ok b after ↔
      ∃ a between, x m = .ok a between ∧ f a between = .ok b after := by
  rw [bind_run]
  cases x m with
  | error raised between => simp
  | ok a between =>
    constructor
    · exact fun h => ⟨a, between, rfl, h⟩
    · rintro ⟨_, _, ⟨⟩, h⟩
      exact h

namespace Eval

variable {M : Type → Type} [MonadMachine M]

/-- The result of a fault. -/
@[specialize] def fault (f : Fault) : M Value := return .error f

/-- Goes on with the value of a step, unless it is a signal: then that is the result. -/
@[specialize] def andThen (step : M Value) (next : Value → M Value) : M Value := do
  let value ← step
  if value.isSignal then return value else next value

/-- Evaluates in a new scope inside the current one. -/
@[specialize] def inNewScope {α : Type} (step : M α) : M α := do
  let f ← frame
  let inner ← newScope f.scope
  inBracket (.scope inner) step

end Eval

end ScriptLang
