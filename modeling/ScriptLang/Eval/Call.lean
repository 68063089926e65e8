-- Calls of functions.
import ScriptLang.Eval.Statement

namespace ScriptLang

namespace Eval

variable {M : Type → Type} [MonadMachine M]

/-- Binds parameters to arguments from left to right. A parameter without an argument takes its
default, which may use the parameters before it. Gives the signal of a default, if there is
one. -/
@[specialize] def bindParameters (eval : EvalExpr M) :
    List Parameter → List Value → M (Option Value)
  | [], _ => return none
  | parameter :: rest, arg :: args => do
    define parameter.name arg
    bindParameters eval rest args
  | .required name :: rest, [] => do
    define name .null
    bindParameters eval rest []
  | .defaulted name default :: rest, [] => do
    let value ← eval default
    if value.isSignal then return some value
    define name value
    bindParameters eval rest []

/-- Runs the body of a function in the current scope. -/
@[specialize] def callBody (eval : EvalExpr M) (literal : FunctionLiteral) (args : List Value) :
    M Value := do
  match ← bindParameters eval literal.parameters args with
  | some signal => return signal
  | none => statements eval .null literal.body.statements

/-- Evaluates the body of a call in a new scope inside the scope that the function was made in,
with one more call open. There are never more than `limit` calls open. -/
@[specialize] def inCall {α : Type} (limit : Nat) (closure : Closure) (args : List Value)
    (body : M α) : M α := do
  note (.calls closure args)
  let f ← frame
  if limit ≤ f.depth then
    fail (.stackOverflow limit)
  else
    let inner ← newScope closure.scope
    inBracket .call (inBracket (.scope inner) body)

/-- Calls a function of the program. -/
@[specialize] def callClosure (host : Host) (eval : EvalExpr M) (closure : Closure)
    (args : List Value) : M Value := do
  let literal := closure.literal
  if literal.accepts args.length then
    let result ← inCall host.maxCallDepth closure args (callBody eval literal args)
    return result.settled
  else
    fault (.callArity literal.required literal.parameters.length args.length)

/-- The function that a value names. -/
def closure? (id : FunctionId) : Eval (Option Closure) :=
  onDefinitions fun d => (d.function? id, d)

/-- Applies a value to arguments. -/
@[specialize] def apply (host : Host) (eval : EvalExpr M) (callee : Value) (args : List Value) :
    M Value := do
  match callee with
  | .function id =>
    match ← closure? id with
    | some closure => callClosure host eval closure args
    | none => fault (.notAFunction .function)
  | .builtin b => applyBuiltin host b args
  | other => fault (.notAFunction other.kind)

end Eval

end ScriptLang
