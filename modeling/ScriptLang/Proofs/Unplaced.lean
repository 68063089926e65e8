-- Trees without places: two programs that differ only in where they are written have the same
-- tree once the places of their tokens are forgotten.
import ScriptLang.Tree

namespace ScriptLang

mutual

/-- An expression with all places forgotten. -/
def Expr.unplaced : Expr → Expr
  | .integer value _ => .integer value .nowhere
  | .float value _ => .float value .nowhere
  | .string value _ => .string value .nowhere
  | .boolean value _ => .boolean value .nowhere
  | .null _ => .null .nowhere
  | .identifier name _ => .identifier name .nowhere
  | .unary op operand _ => .unary op operand.unplaced .nowhere
  | .binary op left right _ => .binary op left.unplaced right.unplaced .nowhere
  | .step op name _ => .step op name .nowhere
  | .assign target op value _ => .assign target.unplaced op value.unplaced .nowhere
  | .call function arguments _ => .call function.unplaced (unplacedExprs arguments) .nowhere
  | .index container key _ => .index container.unplaced key.unplaced .nowhere
  | .array elements _ => .array (unplacedExprs elements) .nowhere
  | .hash pairs _ => .hash (unplacedPairs pairs) .nowhere
  | .conditional condition consequence alternative _ =>
    .conditional condition.unplaced consequence.unplaced (unplacedBlock? alternative) .nowhere
  | .ternary condition consequence alternative _ =>
    .ternary condition.unplaced consequence.unplaced alternative.unplaced .nowhere
  | .elvis left right _ => .elvis left.unplaced right.unplaced .nowhere
  | .loop initializer condition update body _ =>
    .loop (unplacedStatement? initializer) (unplacedExpr? condition) (unplacedExpr? update)
      body.unplaced .nowhere
  | .function literal _ => .function literal.unplaced .nowhere
  | .methodCall receiver method arguments _ =>
    .methodCall receiver.unplaced method (unplacedExprs arguments) .nowhere
  | .scopeAccess name branch _ => .scopeAccess name branch .nowhere
  | .importFile path _ => .importFile path.unplaced .nowhere

def unplacedExpr? : Option Expr → Option Expr
  | none => none
  | some expr => some expr.unplaced

def unplacedBlock? : Option Block → Option Block
  | none => none
  | some block => some block.unplaced

def unplacedStatement? : Option Statement → Option Statement
  | none => none
  | some statement => some statement.unplaced

def unplacedExprs : List Expr → List Expr
  | [] => []
  | expr :: rest => expr.unplaced :: unplacedExprs rest

def unplacedPairs : List (Expr × Expr) → List (Expr × Expr)
  | [] => []
  | (key, value) :: rest => (key.unplaced, value.unplaced) :: unplacedPairs rest

def Parameter.unplaced : Parameter → Parameter
  | .required name => .required name
  | .defaulted name default => .defaulted name default.unplaced

def unplacedParameters : List Parameter → List Parameter
  | [] => []
  | parameter :: rest => parameter.unplaced :: unplacedParameters rest

def FunctionLiteral.unplaced : FunctionLiteral → FunctionLiteral
  | .mk name parameters body => .mk name (unplacedParameters parameters) body.unplaced

def Block.unplaced : Block → Block
  | .mk statements _ => .mk (unplacedStatements statements) .nowhere

def unplacedStatements : List Statement → List Statement
  | [] => []
  | statement :: rest => statement.unplaced :: unplacedStatements rest

def Statement.unplaced : Statement → Statement
  | .var name value _ => .var name value.unplaced .nowhere
  | .assignment target op value _ => .assignment target.unplaced op value.unplaced .nowhere
  | .returning value _ => .returning (unplacedExpr? value) .nowhere
  | .breaking _ => .breaking .nowhere
  | .delete target _ => .delete target.unplaced .nowhere
  | .enum name branches _ => .enum name (unplacedBranches branches) .nowhere
  | .expression expr _ => .expression expr.unplaced .nowhere

def unplacedBranches : List (String × Expr) → List (String × Expr)
  | [] => []
  | (branch, value) :: rest => (branch, value.unplaced) :: unplacedBranches rest

end

namespace Expr

variable (p : Position)

@[simp] theorem unplaced_unary (op : UnaryOp) (e : Expr) :
    (unary op e p).unplaced = .unary op e.unplaced .nowhere := rfl

@[simp] theorem unplaced_binary (op : BinaryOp) (l r : Expr) :
    (binary op l r p).unplaced = .binary op l.unplaced r.unplaced .nowhere := rfl

@[simp] theorem unplaced_assign (t : Expr) (op : Option BinaryOp) (v : Expr) :
    (assign t op v p).unplaced = .assign t.unplaced op v.unplaced .nowhere := rfl

@[simp] theorem unplaced_call (f : Expr) (args : List Expr) :
    (call f args p).unplaced = .call f.unplaced (unplacedExprs args) .nowhere := rfl

@[simp] theorem unplaced_index (c k : Expr) :
    (index c k p).unplaced = .index c.unplaced k.unplaced .nowhere := rfl

@[simp] theorem unplaced_array (es : List Expr) :
    (array es p).unplaced = .array (unplacedExprs es) .nowhere := rfl

@[simp] theorem unplaced_hash (pairs : List (Expr × Expr)) :
    (hash pairs p).unplaced = .hash (unplacedPairs pairs) .nowhere := rfl

@[simp] theorem unplaced_ternary (c t e : Expr) :
    (ternary c t e p).unplaced = .ternary c.unplaced t.unplaced e.unplaced .nowhere := rfl

@[simp] theorem unplaced_elvis (l r : Expr) :
    (elvis l r p).unplaced = .elvis l.unplaced r.unplaced .nowhere := rfl

@[simp] theorem unplaced_methodCall (r : Expr) (method : String) (args : List Expr) :
    (methodCall r method args p).unplaced =
      .methodCall r.unplaced method (unplacedExprs args) .nowhere := rfl

end Expr

theorem unplacedExprs_eq_map (es : List Expr) : unplacedExprs es = es.map Expr.unplaced := by
  induction es with
  | nil => rfl
  | cons e es ih => exact congrArg (e.unplaced :: ·) ih

theorem unplacedPairs_eq_map (pairs : List (Expr × Expr)) :
    unplacedPairs pairs = pairs.map fun pair => (pair.1.unplaced, pair.2.unplaced) := by
  induction pairs with
  | nil => rfl
  | cons pair pairs ih => exact congrArg ((pair.1.unplaced, pair.2.unplaced) :: ·) ih

theorem unplacedStatements_append (p q : Program) :
    unplacedStatements (p ++ q) = unplacedStatements p ++ unplacedStatements q := by
  induction p with
  | nil => rfl
  | cons s p ih => exact congrArg (s.unplaced :: ·) ih

end ScriptLang
