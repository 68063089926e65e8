-- The expressions whose text can be read back, and the tokens that each of them is written with.
import ScriptLang.Parser.Expression
import ScriptLang.Token.Scan

namespace ScriptLang

/-! ## Expressions that can be read back -/

/-- A name that is no keyword. -/
def IsName (s : String) : Prop :=
  TokenKind.keyword? s = none ∧
    ∃ c cs, s.toList = c :: cs ∧ isNameStart c = true ∧ ∀ d ∈ cs, isNameRest d = true

/-- Expressions whose text can be read back: there are no negative literals, no quotes in strings
and no blocks in them. -/
inductive Canonical : Expr → Prop where
  | integer {value : Int64} (h : 0 ≤ value.toInt) (p : Position) : Canonical (.integer value p)
  | string {value : String} (h : '"' ∉ value.toList) (p : Position) : Canonical (.string value p)
  | boolean (value : Bool) (p : Position) : Canonical (.boolean value p)
  | null (p : Position) : Canonical (.null p)
  | identifier {name : String} (h : IsName name) (p : Position) : Canonical (.identifier name p)
  | unary (op : UnaryOp) {operand : Expr} (h : Canonical operand) (p : Position) :
      Canonical (.unary op operand p)
  | binary (op : BinaryOp) {left right : Expr} (hl : Canonical left) (hr : Canonical right)
      (p : Position) : Canonical (.binary op left right p)
  | step (op : StepOp) {name : String} (h : IsName name) (p : Position) :
      Canonical (.step op name p)
  | assign {target value : Expr} {op : Option BinaryOp} (ht : Canonical target)
      (htarget : Parser.isTarget target = true)
      (hop : op ∈ [none, some .add, some .sub, some .mul, some .div]) (hv : Canonical value)
      (p : Position) : Canonical (.assign target op value p)
  | call {function : Expr} {arguments : List Expr} (hf : Canonical function)
      (ha : ∀ a ∈ arguments, Canonical a) (p : Position) : Canonical (.call function arguments p)
  | index {container key : Expr} (hc : Canonical container) (hk : Canonical key) (p : Position) :
      Canonical (.index container key p)
  | array {elements : List Expr} (he : ∀ e ∈ elements, Canonical e) (p : Position) :
      Canonical (.array elements p)
  | hash {pairs : List (Expr × Expr)} (hk : ∀ pair ∈ pairs, Canonical pair.1)
      (hv : ∀ pair ∈ pairs, Canonical pair.2) (p : Position) : Canonical (.hash pairs p)
  | ternary {condition consequence alternative : Expr} (hc : Canonical condition)
      (ht : Canonical consequence) (he : Canonical alternative) (p : Position) :
      Canonical (.ternary condition consequence alternative p)
  | elvis {left right : Expr} (hl : Canonical left) (hr : Canonical right) (p : Position) :
      Canonical (.elvis left right p)
  | methodCall {receiver : Expr} {method : String} {arguments : List Expr}
      (hr : Canonical receiver) (hm : IsName method) (ha : ∀ a ∈ arguments, Canonical a)
      (p : Position) : Canonical (.methodCall receiver method arguments p)
  | scopeAccess {name branch : String} (hn : IsName name) (hb : IsName branch) (p : Position) :
      Canonical (.scopeAccess name branch p)

/-! ## The tokens of an expression -/

/-- What a token is apart from its place: its kind and its literal. -/
abbrev Shape := TokenKind × String

def Token.shape (token : Token) : Shape := (token.kind, token.literal)

/-- The shape of a sign. -/
def TokenKind.shape (kind : TokenKind) : Shape := (kind, kind.text)

def UnaryOp.kind : UnaryOp → TokenKind
  | negate => .minus
  | not => .bang

def StepOp.kind : StepOp → TokenKind
  | increment => .increment
  | decrement => .decrement

def BinaryOp.kind : BinaryOp → TokenKind
  | add => .plus
  | sub => .minus
  | mul => .star
  | div => .slash
  | mod => .percent
  | pow => .starStar
  | less => .less
  | greater => .greater
  | lessEqual => .lessEqual
  | greaterEqual => .greaterEqual
  | equal => .equal
  | notEqual => .notEqual
  | and => .and
  | or => .or

/-- The sign of an assignment, for the operators that have one. -/
def assignKind : Option BinaryOp → TokenKind
  | some .add => .plusAssign
  | some .sub => .minusAssign
  | some .mul => .starAssign
  | some .div => .slashAssign
  | _ => .assign

theorem UnaryOp.text_kind (op : UnaryOp) : op.kind.text = op.text := by
  cases op <;> rfl

theorem StepOp.text_kind (op : StepOp) : op.kind.text = op.text := by
  cases op <;> rfl

theorem BinaryOp.text_kind (op : BinaryOp) : op.kind.text = op.text := by
  cases op <;> rfl

theorem text_assignKind {op : Option BinaryOp}
    (h : op ∈ [none, some .add, some .sub, some .mul, some .div]) :
    (assignKind op).text = assignSign op := by
  simp only [List.mem_cons, List.not_mem_nil, or_false] at h
  rcases h with rfl | rfl | rfl | rfl | rfl <;> rfl

/-- Shapes between parentheses. -/
def enclosed (inner : List Shape) : List Shape :=
  TokenKind.leftParen.shape :: (inner ++ [TokenKind.rightParen.shape])

/-- Shapes with commas between them. -/
def separated : List (List Shape) → List Shape
  | [] => []
  | [item] => item
  | item :: next :: rest => item ++ TokenKind.comma.shape :: separated (next :: rest)

mutual

/-- The shapes of the tokens that an expression is written with. -/
def Expr.shapes : Expr → List Shape
  | .integer value _ => [(.int, toString value.toInt)]
  | .string value _ => [(.string, value)]
  | .boolean value _ => [(if value then .trueWord else .falseWord, boolText value)]
  | .null _ => [TokenKind.nullWord.shape]
  | .identifier name _ => [(.name, name)]
  | .unary op operand _ => enclosed (op.kind.shape :: operand.shapes)
  | .binary op left right _ => enclosed (left.shapes ++ op.kind.shape :: right.shapes)
  | .step op name _ => enclosed [(.name, name), op.kind.shape]
  | .assign target op value _ =>
    enclosed (target.shapes ++ (assignKind op).shape :: value.shapes)
  | .call function arguments _ => function.shapes ++ enclosed (separated (exprShapes arguments))
  | .index container key _ =>
    enclosed (container.shapes ++ TokenKind.leftBracket.shape ::
      (key.shapes ++ [TokenKind.rightBracket.shape]))
  | .array elements _ =>
    TokenKind.leftBracket.shape ::
      (separated (exprShapes elements) ++ [TokenKind.rightBracket.shape])
  | .hash pairs _ =>
    TokenKind.leftBrace.shape :: (separated (pairShapes pairs) ++ [TokenKind.rightBrace.shape])
  | .ternary condition consequence alternative _ =>
    enclosed (condition.shapes ++ TokenKind.question.shape ::
      (consequence.shapes ++ TokenKind.colon.shape :: alternative.shapes))
  | .elvis left right _ => enclosed (left.shapes ++ TokenKind.elvis.shape :: right.shapes)
  | .methodCall receiver method arguments _ =>
    receiver.shapes ++ TokenKind.dot.shape :: (.name, method) ::
      enclosed (separated (exprShapes arguments))
  | .scopeAccess name branch _ =>
    [(.name, name), TokenKind.doubleColon.shape, (.name, branch)]
  | _ => []

def exprShapes : List Expr → List (List Shape)
  | [] => []
  | expr :: rest => expr.shapes :: exprShapes rest

def pairShapes : List (Expr × Expr) → List (List Shape)
  | [] => []
  | (key, value) :: rest =>
    (key.shapes ++ TokenKind.colon.shape :: value.shapes) :: pairShapes rest

end

end ScriptLang
