-- The tree of a program: expressions give values, statements have effects. Every node
-- keeps the place of the token it is named for.
import ScriptLang.Operator

namespace ScriptLang

mutual

/-- An expression. -/
inductive Expr where
  | integer (value : Int64) (position : Position)
  | float (value : Float) (position : Position)
  | string (value : String) (position : Position)
  | boolean (value : Bool) (position : Position)
  | null (position : Position)
  | identifier (name : String) (position : Position)
  /-- An operator before its operand: `-x`, `!x`. -/
  | unary (op : UnaryOp) (operand : Expr) (position : Position)
  /-- An operator between its operands: `a + b`, `a && b`. -/
  | binary (op : BinaryOp) (left right : Expr) (position : Position)
  /-- A step of a variable: `x++`, `x--`. -/
  | step (op : StepOp) (name : String) (position : Position)
  /-- Writes a target: `target = value`, or `target op= value`. -/
  | assign (target : Expr) (op : Option BinaryOp) (value : Expr) (position : Position)
  | call (function : Expr) (arguments : List Expr) (position : Position)
  /-- Looks a key up: `container[key]`. -/
  | index (container key : Expr) (position : Position)
  | array (elements : List Expr) (position : Position)
  | hash (pairs : List (Expr × Expr)) (position : Position)
  /-- An `if`, with the block of its `else`. -/
  | conditional (condition : Expr) (consequence : Block) (alternative : Option Block)
      (position : Position)
  /-- The choice `c ? a : b`. -/
  | ternary (condition consequence alternative : Expr) (position : Position)
  /-- The choice `a ?: b`, whose condition is also its first answer. -/
  | elvis (left right : Expr) (position : Position)
  /-- The loop `for (initializer; condition; update) body`. -/
  | loop (initializer : Option Statement) (condition update : Option Expr) (body : Block)
      (position : Position)
  | function (literal : FunctionLiteral) (position : Position)
  /-- The call `receiver.method(arguments)`. -/
  | methodCall (receiver : Expr) (method : String) (arguments : List Expr)
      (position : Position)
  /-- The branch `Name::Branch` of an enum. -/
  | scopeAccess (name branch : String) (position : Position)
  /-- Runs another file: `import path`. -/
  | importFile (path : Expr) (position : Position)

/-- A parameter of a function. -/
inductive Parameter where
  | required (name : String)
  | defaulted (name : String) (default : Expr)

/-- A function as it is written: perhaps a name, the parameters and the body. -/
inductive FunctionLiteral where
  | mk (name : Option String) (parameters : List Parameter) (body : Block)

/-- Statements in braces, with the place of the opening brace. -/
inductive Block where
  | mk (statements : List Statement) (position : Position)

/-- A statement. -/
inductive Statement where
  | var (name : String) (value : Expr) (position : Position)
  | assignment (target : Expr) (op : Option BinaryOp) (value : Expr) (position : Position)
  | returning (value : Option Expr) (position : Position)
  | breaking (position : Position)
  | delete (target : Expr) (position : Position)
  | enum (name : String) (branches : List (String × Expr)) (position : Position)
  | expression (expr : Expr) (position : Position)

end

/-- A program is a list of statements. -/
abbrev Program := List Statement

namespace Parameter

def name : Parameter → String
  | required name => name
  | defaulted name _ => name

def isRequired : Parameter → Bool
  | required _ => true
  | defaulted _ _ => false

end Parameter

namespace FunctionLiteral

def name : FunctionLiteral → Option String
  | mk name _ _ => name

def parameters : FunctionLiteral → List Parameter
  | mk _ parameters _ => parameters

def body : FunctionLiteral → Block
  | mk _ _ body => body

/-- How many arguments a call has to give. -/
def required (literal : FunctionLiteral) : Nat :=
  (literal.parameters.filter Parameter.isRequired).length

/-- Whether a call may give so many arguments. -/
def accepts (literal : FunctionLiteral) (given : Nat) : Bool :=
  literal.required ≤ given && given ≤ literal.parameters.length

end FunctionLiteral

namespace Block

def statements : Block → List Statement
  | mk statements _ => statements

def position : Block → Position
  | mk _ position => position

end Block

/-- The place of the token that an expression is named for. -/
def Expr.position : Expr → Position
  | .integer _ p | .float _ p | .string _ p | .boolean _ p | .null p | .identifier _ p
  | .unary _ _ p | .binary _ _ _ p | .step _ _ p | .assign _ _ _ p | .call _ _ p
  | .index _ _ p | .array _ p | .hash _ p | .conditional _ _ _ p | .ternary _ _ _ p
  | .elvis _ _ p | .loop _ _ _ _ p | .function _ p | .methodCall _ _ _ p
  | .scopeAccess _ _ p | .importFile _ p => p

end ScriptLang
