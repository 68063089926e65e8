-- Expressions. The value of an expression is defined from the values of the expressions inside
-- it, and `Eval.expr` ties the knot: its number bounds how deep evaluation may nest and how
-- often a loop may run.
import ScriptLang.Eval.Loop
import ScriptLang.Eval.Call
import ScriptLang.Eval.Import
import ScriptLang.Eval.Stack

namespace ScriptLang

namespace Eval

variable {M : Type → Type} [MonadMachine M]

/-- The value of a name: what the scopes bind it to, or the builtin function. -/
def lookup (name : String) : Eval Value := do
  match ← lookup? name with
  | some value => return value
  | none =>
    match Builtin.ofName? name with
    | some b => return .builtin b
    | none => fault (.unbound name)

/-- Steps a variable, as `x++` and `x--` do: writes the next value and gives the one before. -/
def step (op : StepOp) (name : String) : Eval Value := do
  match ← lookup? name with
  | none => fault (.unbound name)
  | some current =>
    let next := Operation.stepped op name current
    if next.isError then return next
    assign name next
    return current

/-- Makes the value that `Name::Branch` stands for. -/
def scopeAccess (name branch : String) : Eval Value := do
  match ← lookup name with
  | .enum id =>
    match ← onDefinitions (fun d => (d.enum? id, d)) with
    | some type =>
      match type.branches.lookup branch with
      | some value => return value
      | none => fault (.noBranch name branch)
    | none => fault (.notAnEnum name)
  | .error f => fault f
  | _ => fault (.notAnEnum name)

/-- Adds the pairs of a hash literal to a hash. A key is checked before its value is evaluated.
Gives the first signal instead if there is one. -/
@[specialize] def hashPairs (eval : EvalExpr M) (object : HashObject) :
    List (Expr × Expr) → M (Except Value HashObject)
  | [] => return .ok object
  | (key, value) :: rest => do
    let key ← eval key
    if key.isSignal then return .error key
    else if (HashKey.of? key).isNone then return .error (.error (.unhashable key.kind))
    else
      let value ← eval value
      if value.isSignal then return .error value
      else hashPairs eval (object.insert key value) rest

/-- Makes a function, and binds it to its name if it has one. -/
def makeFunction (literal : FunctionLiteral) : Eval Value := do
  let scope ← currentScope
  let id ← onDefinitions (·.newFunction ⟨literal, scope⟩)
  if let some name := literal.name then
    define name (.function id)
  return .function id

/-- Calls a method of a value. -/
def callMethod (receiver : Value) (method : String) (args : List Value) : Eval Value
  | ⟨store, scope, depth, imports, sink, inputs⟩ =>
    let result := store.callMethod receiver method args
    .ok result.1 ⟨result.2, scope, depth, imports, sink, inputs⟩

/-- The value of an expression, from an evaluation of the expressions inside it. -/
@[specialize] def exprStep (host : Host) (fuel : Nat) (eval : EvalExpr M) : EvalExpr M
  | .integer value _ => return .integer value
  | .float value _ => return .float value
  | .string value _ => return .string value
  | .boolean value _ => return .boolean value
  | .null _ => return .null
  | .identifier name _ => lookup name
  | .unary op operand _ =>
    andThen (eval operand) fun value => return Operation.unary op value
  | .binary op left right _ =>
    andThen (eval left) fun left =>
      andThen (eval right) fun right => operate op left right
  | .step op name _ => step op name
  | .assign target op value _ => assignment eval target op value
  | .call function arguments _ =>
    andThen (eval function) fun callee =>
      withValues eval arguments fun args => apply host eval callee args
  | .index container key _ =>
    andThen (eval container) fun container =>
      andThen (eval key) fun key => readElement container key
  | .array elements _ => withValues eval elements fun items => newArray items
  | .hash pairs _ => do
    match ← hashPairs eval .empty pairs with
    | .ok object => newHash object
    | .error signal => return signal
  | .conditional condition consequence alternative _ =>
    andThen (eval condition) fun value =>
      if value.isTruthy then block eval consequence
      else
        match alternative with
        | some other => block eval other
        | none => return .null
  | .ternary condition consequence alternative _ =>
    andThen (eval condition) fun value =>
      if value.isTruthy then eval consequence else eval alternative
  | .elvis left right _ =>
    andThen (eval left) fun value =>
      if value.isTruthy then return value else eval right
  | .loop initializer condition clause body _ => loop fuel eval initializer condition clause body
  | .function literal _ => makeFunction literal
  | .methodCall receiver method arguments _ =>
    andThen (eval receiver) fun receiver =>
      withValues eval arguments fun args => callMethod receiver method args
  | .scopeAccess name branch _ => scopeAccess name branch
  | .importFile path _ => andThen (eval path) (importValue host eval)

/-- The value of an expression, nested at most so deep. -/
@[specialize] def expr (host : Host) : Nat → EvalExpr M
  | 0, _ => exhausted
  | fuel + 1, e => nested fuel do
    note (.evaluates e)
    exprStep host fuel (expr host fuel) e

/-- Evaluates a program. Its result is the value of its last statement, the value of a `return`
outside all functions, or the first error. -/
@[specialize] def program (host : Host) (fuel : Nat) (p : Program) : M Value := do
  return (← statements (expr host fuel) .null p).settled

end Eval

end ScriptLang
