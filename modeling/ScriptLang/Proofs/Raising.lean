-- Evaluation with exceptions. Errors, returns and breaks are raised: they leave everything that
-- is under way at once, up to the call, the loop, the import or the program that handles them.
import ScriptLang.Eval.Expression

namespace ScriptLang

/-- What an evaluation can raise. -/
inductive Raised where
  | error (fault : Fault)
  | returning (value : Value)
  | breaking
  /-- The run ends. Nothing handles this. -/
  | stop (reason : Stop)

/-- An evaluation that gives a result or raises something. -/
abbrev Raising := EStateM Raised Machine

namespace Raising

/-- Takes a step on the machine. -/
def act {α : Type} (step : Eval α) : Raising α := fun m =>
  match step m with
  | .ok a after => .ok a after
  | .error reason after => .error (.stop reason) after

/-- Evaluates inside a bracket, and leaves the bracket also when something is raised. -/
def within {α : Type} (b : Eval.Bracket) (x : Raising α) : Raising α := fun m =>
  match x (b.enter m) with
  | .ok a after => .ok a (b.leave m after)
  | .error raised after => .error raised (b.leave m after)

instance : MonadMachine Raising where
  act := act
  inBracket := within
  nested _ x := x
  inFile _ x := x
  note _ := return ()

/-- Raises a signal. Any other value is the result. -/
def raise : Value → Raising Value
  | .error fault => throw (.error fault)
  | .returning value => throw (.returning value)
  | .breaking => throw .breaking
  | value => return value

/-- Raises an error. Any other value is the result. -/
def raiseError : Value → Raising Value
  | .error fault => throw (.error fault)
  | value => return value

/-- Takes a step and raises the signal that it gives. -/
def perform (step : Eval Value) : Raising Value := do raise (← act step)

/-- Takes a step and raises the error that it gives. -/
def attempt (step : Eval Value) : Raising Value := do raiseError (← act step)

/-! ## Statements -/

/-- Assigns to a name that is bound. -/
def assignName (eval : EvalExpr Raising) (name : String) (op : Option BinaryOp) (value : Expr) :
    Raising Value := do
  match ← act (Eval.lookup? name) with
  | none => throw (.error (.unbound name))
  | some current =>
    let value ← eval value
    let result ← attempt (Eval.combined op current value)
    act (Eval.assign name result)
    return result

/-- Assigns to an element. -/
def assignElement (eval : EvalExpr Raising) (container key : Expr) (op : Option BinaryOp)
    (value : Expr) : Raising Value := do
  let container ← eval container
  let key ← eval key
  let value ← eval value
  match op with
  | none => perform (Eval.writeElement container key value)
  | some op =>
    let current ← attempt (Eval.readElement container key)
    let result ← attempt (Eval.operate op current value)
    perform (Eval.writeElement container key result)

def assignment (eval : EvalExpr Raising) (target : Expr) (op : Option BinaryOp) (value : Expr) :
    Raising Value :=
  match target with
  | .identifier name _ => assignName eval name op value
  | .index container key _ => assignElement eval container key op value
  | other => throw (.error (.invalidTarget other.text))

def deleteElement (eval : EvalExpr Raising) (target : Expr) : Raising Value :=
  match target with
  | .index container key _ =>
    match container with
    | .identifier _ _ => do
      let container ← eval container
      let key ← eval key
      perform (Eval.eraseElement container key)
    | other => throw (.error (.deleteNotIdentifier other.text))
  | other => throw (.error (.cannotDelete other.text))

/-- Evaluates a branch of an enum. -/
def branchValue (eval : EvalExpr Raising) (branch : String × Expr) : Raising (String × Value) := do
  return (branch.1, ← eval branch.2)

def statement (eval : EvalExpr Raising) : Statement → Raising Value
  | .var name value _ => do
    let value ← eval value
    act (Eval.define name value)
    return .null
  | .assignment target op value _ => assignment eval target op value
  | .returning none _ => throw (.returning .null)
  | .returning (some value) _ => do throw (.returning (← eval value))
  | .breaking _ => throw .breaking
  | .delete target _ => deleteElement eval target
  | .enum name branches _ => do
    let branches ← branches.mapM (branchValue eval)
    act (Eval.bindEnum name branches)
    return .null
  | .expression e _ => eval e

/-- Evaluates statements one after the other. The result is that of the last one. -/
def statements (eval : EvalExpr Raising) (ss : List Statement) : Raising Value :=
  ss.foldlM (fun _ s => statement eval s) .null

def block (eval : EvalExpr Raising) (b : Block) : Raising Value :=
  Eval.inNewScope (statements eval b.statements)

/-! ## Loops -/

/-- The value of the body of a loop, unless it breaks. -/
def untilBreak (body : Raising Value) : Raising (Option Value) :=
  tryCatch (some <$> body) fun
    | .breaking => return none
    | other => throw other

/-- Whether a loop goes on. -/
def goesOn (eval : EvalExpr Raising) : Option Expr → Raising Bool
  | none => return true
  | some condition => do return (← eval condition).isTruthy

/-- Runs a clause of a loop, if there is one. -/
def optionally {α : Type} (run : α → Raising Value) : Option α → Raising Unit
  | none => return ()
  | some clause => do let _ ← run clause

/-- Runs passes of a loop, at most so many. The last pass before gave `result`. -/
def passes (eval : EvalExpr Raising) (condition clause : Option Expr) (body : Block) :
    Nat → Value → Raising Value
  | 0, _ => act Eval.exhausted
  | fuel + 1, result => do
    if ← goesOn eval condition then
      match ← untilBreak (block eval body) with
      | none => return .null
      | some value =>
        optionally eval clause
        passes eval condition clause body fuel value
    else return result

def loop (fuel : Nat) (eval : EvalExpr Raising) (initializer : Option Statement)
    (condition clause : Option Expr) (body : Block) : Raising Value :=
  Eval.inNewScope do
    optionally (statement eval) initializer
    passes eval condition clause body fuel .null

/-! ## Calls -/

/-- Binds parameters to arguments from left to right. -/
def bindParameters (eval : EvalExpr Raising) : List Parameter → List Value → Raising Unit
  | [], _ => return ()
  | parameter :: rest, arg :: args => do
    act (Eval.define parameter.name arg)
    bindParameters eval rest args
  | .required name :: rest, [] => do
    act (Eval.define name .null)
    bindParameters eval rest []
  | .defaulted name default :: rest, [] => do
    let value ← eval default
    act (Eval.define name value)
    bindParameters eval rest []

/-- Handles what a function raises: a return gives its value, a break gives `null`. (A return only
carries a signal if a plugin made it.) -/
def handleCall (body : Raising Value) : Raising Value :=
  tryCatch body fun
    | .returning value => raise value
    | .breaking => return .null
    | other => throw other

def callClosure (host : Host) (eval : EvalExpr Raising) (closure : Closure) (args : List Value) :
    Raising Value := do
  let literal := closure.literal
  if literal.accepts args.length then
    handleCall <| Eval.inCall host.maxCallDepth closure args do
      bindParameters eval literal.parameters args
      statements eval literal.body.statements
  else
    throw (.error (.callArity literal.required literal.parameters.length args.length))

def apply (host : Host) (eval : EvalExpr Raising) (callee : Value) (args : List Value) :
    Raising Value := do
  match callee with
  | .function id =>
    match ← act (Eval.closure? id) with
    | some closure => callClosure host eval closure args
    | none => throw (.error (.notAFunction .function))
  | .builtin b => perform (Eval.applyBuiltin host b args)
  | other => throw (.error (.notAFunction other.kind))

/-! ## Imports -/

/-- Handles what a file raises: a return gives its value, a break gives `null`, and an error gets
the name of the file. -/
def handleImport (file : String) (run : Raising Value) : Raising Value :=
  tryCatch run fun
    | .error fault => throw (.error (.inFile file fault))
    | .returning value => raise value
    | .breaking => return .null
    | .stop reason => throw (.stop reason)

def importFile (host : Host) (eval : EvalExpr Raising) (file : String) : Raising Value :=
  handleImport file do
    match ← Eval.inImport host file (statements eval) with
    | .error reason => throw (.error reason)
    | .ok _ => return .null

def importValue (host : Host) (eval : EvalExpr Raising) : Value → Raising Value
  | .string file => importFile host eval file
  | other => throw (.error (.importPath other.kind))

/-! ## Expressions -/

/-- Adds a pair of a hash literal to a hash. -/
def hashPair (eval : EvalExpr Raising) (object : HashObject) (pair : Expr × Expr) :
    Raising HashObject := do
  let key ← eval pair.1
  if (HashKey.of? key).isNone then throw (.error (.unhashable key.kind))
  let value ← eval pair.2
  return object.insert key value

/-- The value of an expression, from an evaluation of the expressions inside it. -/
def exprStep (host : Host) (fuel : Nat) (eval : EvalExpr Raising) : EvalExpr Raising
  | .integer value _ => return .integer value
  | .float value _ => return .float value
  | .string value _ => return .string value
  | .boolean value _ => return .boolean value
  | .null _ => return .null
  | .identifier name _ => perform (Eval.lookup name)
  | .unary op operand _ => do raise (Operation.unary op (← eval operand))
  | .binary op left right _ => do
    let left ← eval left
    let right ← eval right
    perform (Eval.operate op left right)
  | .step op name _ => perform (Eval.step op name)
  | .assign target op value _ => assignment eval target op value
  | .call function arguments _ => do
    let callee ← eval function
    let args ← arguments.mapM eval
    apply host eval callee args
  | .index container key _ => do
    let container ← eval container
    let key ← eval key
    perform (Eval.readElement container key)
  | .array elements _ => do
    let items ← elements.mapM eval
    perform (Eval.newArray items)
  | .hash pairs _ => do
    let object ← pairs.foldlM (hashPair eval) .empty
    perform (Eval.newHash object)
  | .conditional condition consequence alternative _ => do
    if (← eval condition).isTruthy then block eval consequence
    else
      match alternative with
      | some other => block eval other
      | none => return .null
  | .ternary condition consequence alternative _ => do
    if (← eval condition).isTruthy then eval consequence else eval alternative
  | .elvis left right _ => do
    let value ← eval left
    if value.isTruthy then return value else eval right
  | .loop initializer condition clause body _ => loop fuel eval initializer condition clause body
  | .function literal _ => perform (Eval.makeFunction literal)
  | .methodCall receiver method arguments _ => do
    let receiver ← eval receiver
    let args ← arguments.mapM eval
    perform (Eval.callMethod receiver method args)
  | .scopeAccess name branch _ => perform (Eval.scopeAccess name branch)
  | .importFile path _ => do importValue host eval (← eval path)

/-- The value of an expression, nested at most so deep. -/
def expr (host : Host) : Nat → EvalExpr Raising
  | 0, _ => act Eval.exhausted
  | fuel + 1, e => exprStep host fuel (expr host fuel) e

/-- Handles what a program raises: a return gives its value, a break gives `null`, and an error
is the result. -/
def handleProgram (run : Raising Value) : Eval Value := fun m =>
  match run m with
  | .ok value after => .ok value after
  | .error (.error fault) after => .ok (.error fault) after
  | .error (.returning value) after => .ok value after
  | .error .breaking after => .ok .null after
  | .error (.stop reason) after => .error reason after

def program (host : Host) (fuel : Nat) (p : Program) : Eval Value :=
  handleProgram (statements (expr host fuel) p)

end Raising

end ScriptLang
