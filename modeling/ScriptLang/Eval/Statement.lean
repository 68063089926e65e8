-- Statements, blocks and assignments. The evaluation of expressions is an argument, `eval`.
import ScriptLang.Eval.Builtins
import ScriptLang.Operation

namespace ScriptLang

/-- An evaluation of expressions. -/
abbrev EvalExpr (M : Type → Type) := Expr → M Value

namespace Eval

variable {M : Type → Type} [MonadMachine M]

/-! ## Several expressions -/

/-- The values of expressions from left to right, or the first signal. -/
@[specialize] def values (eval : EvalExpr M) : List Expr → M (Except Value (List Value))
  | [] => return .ok []
  | expr :: rest => do
    let value ← eval expr
    if value.isSignal then return .error value
    else
      match ← values eval rest with
      | .ok others => return .ok (value :: others)
      | .error signal => return .error signal

/-- Goes on with the values of expressions, unless there is a signal among them. -/
@[specialize] def withValues (eval : EvalExpr M) (exprs : List Expr)
    (next : List Value → M Value) : M Value := do
  match ← values eval exprs with
  | .ok vs => next vs
  | .error signal => return signal

/-! ## Assignments -/

/-- The value of a binary operator. -/
@[specialize] def operate (op : BinaryOp) (left right : Value) : M Value := do
  return Operation.binary (← heap) op left right

/-- The value that an assignment stores: the right side, or its combination with the value that
is there. -/
@[specialize] def combined (op : Option BinaryOp) (current value : Value) : M Value :=
  match op with
  | some op => operate op current value
  | none => return value

/-- Assigns to a name that is bound. The value before is read first. -/
@[specialize] def assignName (eval : EvalExpr M) (name : String) (op : Option BinaryOp)
    (value : Expr) : M Value := do
  match ← lookup? name with
  | none => fault (.unbound name)
  | some current =>
    andThen (eval value) fun value => do
      let result ← combined op current value
      if result.isError then return result
      assign name result
      return result

/-- Reads an element. -/
def readElement (container key : Value) : Eval Value := do
  return (← heap).index container key

/-- Writes an element and gives the value written. -/
def writeElement (container key value : Value) : Eval Value :=
  onHeap do
    Heap.write container key value
    return value

/-- Deletes an element. -/
def eraseElement (container key : Value) : Eval Value :=
  onHeap do
    Heap.delete container key
    return .null

/-- Assigns to an element. The container, the key and the right side are evaluated before
anything is written. -/
@[specialize] def assignElement (eval : EvalExpr M) (container key : Expr) (op : Option BinaryOp)
    (value : Expr) : M Value :=
  andThen (eval container) fun container =>
    andThen (eval key) fun key =>
      andThen (eval value) fun value => do
        match op with
        | none => writeElement container key value
        | some op =>
          let current ← readElement container key
          if current.isError then return current
          let result ← operate op current value
          if result.isError then return result
          writeElement container key result

/-- Evaluates an assignment. -/
@[specialize] def assignment (eval : EvalExpr M) (target : Expr) (op : Option BinaryOp)
    (value : Expr) : M Value :=
  match target with
  | .identifier name _ => assignName eval name op value
  | .index container key _ => assignElement eval container key op value
  | other => fault (.invalidTarget other.text)

/-- Deletes an element of a collection that a name is bound to. -/
@[specialize] def deleteElement (eval : EvalExpr M) (target : Expr) : M Value :=
  match target with
  | .index container key _ =>
    match container with
    | .identifier _ _ =>
      andThen (eval container) fun container =>
        andThen (eval key) fun key => eraseElement container key
    | other => fault (.deleteNotIdentifier other.text)
  | other => fault (.cannotDelete other.text)

/-! ## Statements -/

/-- The branches of an enum with their values, or the first signal. -/
@[specialize] def branchValues (eval : EvalExpr M) :
    List (String × Expr) → M (Except Value (List (String × Value)))
  | [] => return .ok []
  | (branch, expr) :: rest => do
    let value ← eval expr
    if value.isSignal then return .error value
    else
      match ← branchValues eval rest with
      | .ok others => return .ok ((branch, value) :: others)
      | .error signal => return .error signal

/-- Makes an enum and binds it to its name. -/
def bindEnum (name : String) (branches : List (String × Value)) : Eval Unit := do
  let id ← onDefinitions (·.newEnum ⟨name, branches⟩)
  define name (.enum id)

/-- Declares an enum. -/
@[specialize] def declareEnum (eval : EvalExpr M) (name : String)
    (branches : List (String × Expr)) : M Value := do
  match ← branchValues eval branches with
  | .error signal => return signal
  | .ok branches =>
    bindEnum name branches
    return .null

/-- What a statement does. Declarations and deletions give `null`. -/
@[specialize] def statementStep (eval : EvalExpr M) : Statement → M Value
  | .var name value _ =>
    andThen (eval value) fun value => do
      define name value
      return .null
  | .assignment target op value _ => assignment eval target op value
  | .returning none _ => return .returning .null
  | .returning (some expr) _ => andThen (eval expr) fun value => return .returning value
  | .breaking _ => return .breaking
  | .delete target _ => deleteElement eval target
  | .enum name branches _ => declareEnum eval name branches
  | .expression expr _ => eval expr

/-- Evaluates a statement. -/
@[specialize] def statement (eval : EvalExpr M) (s : Statement) : M Value := do
  note (.executes s)
  statementStep eval s

/-- Evaluates statements up to the first signal. The result is that of the last one, or `last`
if there is none. -/
@[specialize] def statements (eval : EvalExpr M) : Value → List Statement → M Value
  | last, [] => return last
  | _, first :: rest => do
    let value ← statement eval first
    if value.isSignal then return value else statements eval value rest

/-- Evaluates a block in a scope of its own. -/
@[specialize] def block (eval : EvalExpr M) (b : Block) : M Value :=
  inNewScope (statements eval .null b.statements)

end Eval

end ScriptLang
