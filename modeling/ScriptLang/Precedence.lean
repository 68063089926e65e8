-- How tightly an operator binds. An expression that is read at a level goes on only
-- over operators of a higher level.
import ScriptLang.Token

namespace ScriptLang

/-- The levels of binding, the loosest first. -/
inductive Precedence where
  | lowest
  | assign
  | ternary
  | logicalOr
  | logicalAnd
  | equality
  | comparison
  | sum
  | product
  | power
  | unary
  | step
  | call
  | index
  deriving DecidableEq, Repr

namespace Precedence

/-- The place of a level in the order of levels. -/
def rank : Precedence → Nat
  | lowest => 0
  | assign => 1
  | ternary => 2
  | logicalOr => 3
  | logicalAnd => 4
  | equality => 5
  | comparison => 6
  | sum => 7
  | product => 8
  | power => 9
  | unary => 10
  | step => 11
  | call => 12
  | index => 13

instance : LT Precedence := ⟨fun p q => p.rank < q.rank⟩

instance (p q : Precedence) : Decidable (p < q) :=
  inferInstanceAs (Decidable (p.rank < q.rank))

/-- The level of a token that follows an operand. -/
def of : TokenKind → Precedence
  | .assign | .plusAssign | .minusAssign | .starAssign | .slashAssign => assign
  | .question | .elvis => ternary
  | .or => logicalOr
  | .and => logicalAnd
  | .equal | .notEqual => equality
  | .less | .greater | .lessEqual | .greaterEqual => comparison
  | .plus | .minus => sum
  | .star | .slash | .percent => product
  | .starStar => power
  | .increment | .decrement => step
  | .leftParen | .dot | .doubleColon => call
  | .leftBracket => index
  | _ => lowest

/-- The level at which the right operand of an operator is read. An operator that groups
to the right reads it one level lower. -/
def rightOperand : Precedence → Precedence
  | assign => lowest
  | ternary => assign
  | power => product
  | p => p

/-- Every level, the loosest first. -/
def all : List Precedence :=
  [lowest, assign, ternary, logicalOr, logicalAnd, equality, comparison, sum, product, power,
   unary, step, call, index]

end Precedence

end ScriptLang
