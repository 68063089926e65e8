-- The operators of the language and the text of each.
import ScriptLang.Token

namespace ScriptLang

/-- Operators that stand before their operand. -/
inductive UnaryOp where
  | negate
  | not
  deriving DecidableEq, Repr

/-- Operators that stand behind a variable and write it. -/
inductive StepOp where
  | increment
  | decrement
  deriving DecidableEq, Repr

/-- Operators that stand between two operands. -/
inductive BinaryOp where
  | add
  | sub
  | mul
  | div
  | mod
  | pow
  | less
  | greater
  | lessEqual
  | greaterEqual
  | equal
  | notEqual
  | and
  | or
  deriving DecidableEq, Repr

def UnaryOp.text : UnaryOp → String
  | negate => "-"
  | not => "!"

def StepOp.text : StepOp → String
  | increment => "++"
  | decrement => "--"

def BinaryOp.text : BinaryOp → String
  | add => "+"
  | sub => "-"
  | mul => "*"
  | div => "/"
  | mod => "%"
  | pow => "**"
  | less => "<"
  | greater => ">"
  | lessEqual => "<="
  | greaterEqual => ">="
  | equal => "=="
  | notEqual => "!="
  | and => "&&"
  | or => "||"

/-- The binary operator that a token stands for. Assignments are not binary operators. -/
def TokenKind.binaryOp? : TokenKind → Option BinaryOp
  | .plus => some .add
  | .minus => some .sub
  | .star => some .mul
  | .slash => some .div
  | .percent => some .mod
  | .starStar => some .pow
  | .less => some .less
  | .greater => some .greater
  | .lessEqual => some .lessEqual
  | .greaterEqual => some .greaterEqual
  | .equal => some .equal
  | .notEqual => some .notEqual
  | .and => some .and
  | .or => some .or
  | _ => none

end ScriptLang
