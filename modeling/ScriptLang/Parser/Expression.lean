-- Reading expressions and statements. An expression is read at a level: its first operand,
-- then every operator that binds tighter than the level. The rules take the parser of
-- nested expressions as an argument, and `expression` ties the knot: its number counts the
-- levels of nesting that are left, and each level takes at least one token.
import ScriptLang.Parser.Basic
import ScriptLang.Precedence
import ScriptLang.Number.Literal
import ScriptLang.Tree.Text

namespace ScriptLang

namespace Parser

/-- A parser of expressions at a level. -/
abbrev ExprParser := Precedence → Parser Expr

/-! ## Statements -/

/-- Reads `var name = value`, without a semicolon. -/
def varStatement (expr : ExprParser) : Parser Statement := do
  let keyword ← expect .varWord
  let name ← identifier
  let _ ← expect .assign
  let value ← expr .lowest
  return .var name value keyword.position

/-- An expression as a statement. An assignment becomes a statement of its own. -/
def expressionStatement (expr : ExprParser) : Parser Statement := do
  let position ← peekPosition
  match ← expr .lowest with
  | .assign target op value at_ => return .assignment target op value at_
  | e => return .expression e position

/-- Reads `return`, with a value unless a semicolon, a closing brace or the end follows. -/
def returnStatement (expr : ExprParser) : Parser Statement := do
  let keyword ← expect .returnWord
  match ← peekKind with
  | .semicolon | .rightBrace | .endOfText => return .returning none keyword.position
  | _ => return .returning (some (← expr .lowest)) keyword.position

/-- Reads `delete container[key]`. -/
def deleteStatement (expr : ExprParser) : Parser Statement := do
  let keyword ← expect .deleteWord
  let target ← expr .lowest
  match target with
  | .index _ _ _ => return .delete target keyword.position
  | _ => failAt keyword.position (.invalidDeleteTarget target.text)

/-- The branches of an enum behind its opening brace. `seen` are the names before them. -/
def enumBranches (expr : ExprParser) (name : String) (seen : List String) :
    Nat → Parser (List (String × Expr))
  | 0 => outOfTurns
  | turns + 1 => do
    if ← eat .rightBrace then
      return []
    let _ ← expect .caseWord
    let position ← peekPosition
    let branch ← identifier
    if seen.contains branch then
      failAt position (.duplicateBranch name branch)
    let _ ← expect .colon
    let value ← expr .lowest
    let _ ← eat .semicolon
    return (branch, value) :: (← enumBranches expr name (branch :: seen) turns)

/-- Reads `enum Name`, with its branches in braces. -/
def enumStatement (turns : Nat) (expr : ExprParser) : Parser Statement := do
  let keyword ← expect .enumWord
  let name ← identifier
  let _ ← expect .leftBrace
  let branches ← enumBranches expr name [] turns
  return .enum name branches keyword.position

/-- A statement without the semicolon behind it. -/
def bareStatement (turns : Nat) (expr : ExprParser) : Parser Statement := do
  match ← peekKind with
  | .varWord => varStatement expr
  | .returnWord => returnStatement expr
  | .breakWord =>
    let position ← peekPosition
    skip
    return .breaking position
  | .deleteWord => deleteStatement expr
  | .enumWord => enumStatement turns expr
  | _ => expressionStatement expr

/-- A statement, with the semicolon behind it if there is one. -/
def statement (turns : Nat) (expr : ExprParser) : Parser Statement := do
  let result ← bareStatement turns expr
  let _ ← eat .semicolon
  return result

/-- The statements of a block behind its opening brace, and the closing brace. -/
def blockStatements (turns : Nat) (expr : ExprParser) : Nat → Parser (List Statement)
  | 0 => outOfTurns
  | left + 1 => do
    skipSemicolons
    if ← eat .rightBrace then
      return []
    if (← peekKind) = .endOfText then
      failUnexpected .rightBrace
    let first ← statement turns expr
    return first :: (← blockStatements turns expr left)

/-- Statements in braces. -/
def block (turns : Nat) (expr : ExprParser) : Parser Block := do
  let brace ← expect .leftBrace
  let statements ← blockStatements turns expr turns
  return .mk statements brace.position

/-! ## Expressions that start with a token of their own -/

/-- Reads an `if`, behind its keyword. An `else if` is a block that holds the nested `if`. -/
def conditional (turns : Nat) (expr : ExprParser) : Nat → Position → Parser Expr
  | 0, _ => outOfTurns
  | left + 1, position => do
    let condition ← expr .lowest
    let consequence ← block turns expr
    if ← eat .elseWord then
      match ← take? .ifWord with
      | some keyword =>
        let nested ← conditional turns expr left keyword.position
        let alternative := Block.mk [.expression nested keyword.position] keyword.position
        return .conditional condition consequence (some alternative) position
      | none =>
        let alternative ← block turns expr
        return .conditional condition consequence (some alternative) position
    return .conditional condition consequence none position

/-- The first clause of a `for`, up to its semicolon. -/
def loopInitializer (expr : ExprParser) : Parser (Option Statement) := do
  match ← peekKind with
  | .semicolon => return none
  | .varWord => return some (← varStatement expr)
  | _ => return some (← expressionStatement expr)

/-- An expression, unless the token that ends it is next. -/
def clause (expr : ExprParser) (closing : TokenKind) : Parser (Option Expr) := do
  if (← peekKind) = closing then
    return none
  return some (← expr .lowest)

/-- Reads a `for`, behind its keyword. -/
def loop (turns : Nat) (expr : ExprParser) (position : Position) : Parser Expr := do
  let _ ← expect .leftParen
  let initializer ← loopInitializer expr
  let _ ← expect .semicolon
  let condition ← clause expr .semicolon
  let _ ← expect .semicolon
  let update ← clause expr .rightParen
  let _ ← expect .rightParen
  let body ← block turns expr
  return .loop initializer condition update body position

/-- A parameter and its place. -/
def parameter (expr : ExprParser) : Parser (Parameter × Position) := do
  let position ← peekPosition
  match ← take? .name with
  | some token =>
    if ← eat .assign then
      return (.defaulted token.literal (← expr .assign), position)
    return (.required token.literal, position)
  | none =>
    fun ts =>
      let found := match ts with
        | token :: _ => token.literal
        | [] => TokenKind.endOfText.text
      .error ⟨.invalidParameter found, position⟩ ts

/-- The first required parameter behind a parameter that has a default. -/
def requiredAfterDefault? : List (Parameter × Position) → Option (String × Position)
  | [] => none
  | (.required _, _) :: rest => requiredAfterDefault? rest
  | (.defaulted _ _, _) :: rest =>
    (rest.find? (fun p => p.1.isRequired)).map (fun p => (p.1.name, p.2))

/-- A function, behind its keyword. -/
def functionLiteral (turns : Nat) (expr : ExprParser) (position : Position) : Parser Expr := do
  let name ← take? .name
  let _ ← expect .leftParen
  let parameters ← commaList (parameter expr) .rightParen turns
  if let some (name, at_) := requiredAfterDefault? parameters then
    failAt at_ (.requiredAfterDefault name)
  let body ← block turns expr
  return .function (.mk (name.map Token.literal) (parameters.map Prod.fst) body) position

/-- A key and its value. -/
def hashPair (expr : ExprParser) : Parser (Expr × Expr) := do
  let key ← expr .lowest
  let _ ← expect .colon
  let value ← expr .lowest
  return (key, value)

/-- The arguments of a call, behind the opening parenthesis. -/
def arguments (turns : Nat) (expr : ExprParser) : Parser (List Expr) :=
  commaList (expr .lowest) .rightParen turns

/-- The expression of a token that stands for itself. -/
def atom? (token : Token) : Option (Except ParseCause Expr) :=
  match token.kind with
  | .int =>
    match integerLiteral? token.literal with
    | some value => some (.ok (.integer value token.position))
    | none => some (.error (.invalidInteger token.literal))
  | .float =>
    match floatLiteral? token.literal with
    | some value => some (.ok (.float value token.position))
    | none => some (.error (.invalidFloat token.literal))
  | .string => some (.ok (.string token.literal token.position))
  | .trueWord => some (.ok (.boolean true token.position))
  | .falseWord => some (.ok (.boolean false token.position))
  | .nullWord => some (.ok (.null token.position))
  | .name => some (.ok (.identifier token.literal token.position))
  | .illegal => some (.error (.illegalToken token.literal))
  | _ => none

/-- The rule of a token that opens a longer expression, for what stands behind the token. -/
def opened? (turns : Nat) (expr : ExprParser) (kind : TokenKind) (position : Position) :
    Option (Parser Expr) :=
  match kind with
  | .minus => some do return .unary .negate (← expr .unary) position
  | .bang => some do return .unary .not (← expr .unary) position
  | .leftParen => some do
    let inner ← expr .lowest
    let _ ← expect .rightParen
    return inner
  | .leftBracket => some do
    return .array (← commaList (expr .lowest) .rightBracket turns) position
  | .leftBrace => some do
    return .hash (← commaList (hashPair expr) .rightBrace turns) position
  | .ifWord => some (conditional turns expr turns position)
  | .forWord => some (loop turns expr position)
  | .functionWord => some (functionLiteral turns expr position)
  | .importWord => some do return .importFile (← expr .unary) position
  | _ => none

/-- The operand at the front of the tokens. A token that starts no expression stays. -/
def operand (turns : Nat) (expr : ExprParser) : Parser Expr
  | [] => .error ⟨.noExpression .endOfText, .nowhere⟩ []
  | token :: rest =>
    match atom? token with
    | some (.ok e) => .ok e rest
    | some (.error cause) => .error ⟨cause, token.position⟩ (token :: rest)
    | none =>
      match opened? turns expr token.kind token.position with
      | some rule => rule rest
      | none => .error ⟨.noExpression token.kind, token.position⟩ (token :: rest)

/-! ## Expressions that go on behind an operand -/

/-- The name of an operand that has to be a name. -/
def requireIdentifier (e : Expr) (operator : String) (position : Position) : Parser String :=
  match e with
  | .identifier name _ => return name
  | _ => failAt position (.expectedIdentifier operator e.text)

/-- The operator before the `=` of an assignment. -/
def compoundOp? : TokenKind → Option BinaryOp
  | .plusAssign => some .add
  | .minusAssign => some .sub
  | .starAssign => some .mul
  | .slashAssign => some .div
  | _ => none

/-- Whether an expression can be assigned to. -/
def isTarget : Expr → Bool
  | .identifier _ _ => true
  | .index _ _ _ => true
  | _ => false

/-- The right side of an assignment to `target`. -/
def assignment (expr : ExprParser) (target : Expr) (kind : TokenKind) (position : Position) :
    Parser Expr := do
  if isTarget target then
    let value ← expr Precedence.assign.rightOperand
    return .assign target (compoundOp? kind) value position
  else
    failAt position (.invalidAssignmentTarget target.text)

/-- Goes on from the operand `left` over the operator `token`, which has been taken. -/
def continued (turns : Nat) (expr : ExprParser) (left : Expr) (token : Token) : Parser Expr :=
  let position := token.position
  let level := Precedence.of token.kind
  match token.kind.binaryOp? with
  | some op => do return .binary op left (← expr level.rightOperand) position
  | none =>
    match token.kind with
    | .assign | .plusAssign | .minusAssign | .starAssign | .slashAssign =>
      assignment expr left token.kind position
    | .question => do
      let consequence ← expr .lowest
      let _ ← expect .colon
      let alternative ← expr level.rightOperand
      return .ternary left consequence alternative position
    | .elvis => do return .elvis left (← expr level.rightOperand) position
    | .increment => do
      return .step .increment (← requireIdentifier left StepOp.increment.text position) position
    | .decrement => do
      return .step .decrement (← requireIdentifier left StepOp.decrement.text position) position
    | .leftParen => do return .call left (← arguments turns expr) position
    | .leftBracket => do
      let key ← expr .lowest
      let _ ← expect .rightBracket
      return .index left key position
    | .dot => do
      let method ← identifier
      let _ ← expect .leftParen
      return .methodCall left method (← arguments turns expr) position
    | .doubleColon => do
      let name ← requireIdentifier left TokenKind.doubleColon.text position
      return .scopeAccess name (← identifier) position
    | kind => failAt position (.noExpression kind)

/-- Goes on from the operand `left` over the next token. Where no token is left the operand is
the whole expression. -/
def extend (turns : Nat) (expr : ExprParser) (left : Expr) : Parser Expr
  | [] => .ok left []
  | token :: rest => continued turns expr left token rest

/-- Goes on from the operand `left` while the next operator binds tighter than the level. -/
def climb (turns : Nat) (expr : ExprParser) (level : Precedence) : Nat → Expr → Parser Expr
  | 0, _ => outOfTurns
  | n + 1, left => do
    if level < Precedence.of (← peekKind) then
      climb turns expr level n (← extend turns expr left)
    else
      return left

/-- An expression at a level, nested at most so many times. -/
def expression : Nat → ExprParser
  | 0, _ => outOfTurns
  | n + 1, level => do
    let left ← operand n (expression n)
    climb n (expression n) level n left

end Parser

/-! ## The rules with as many levels as there are tokens -/

/-- A rule of the grammar: a parser that depends on the number of turns of its loops and on
the parser of nested expressions. -/
abbrev Rule (α : Type) := Nat → Parser.ExprParser → Parser α

/-- Runs a rule with more levels of nesting and turns than there are tokens. -/
def Rule.parser {α : Type} (rule : Rule α) : Parser α :=
  fun ts => rule (ts.length + 1) (Parser.expression (ts.length + 1)) ts

namespace Parser

def parseExpression (level : Precedence) : Parser Expr :=
  Rule.parser fun _ expr => expr level

def parseOperand : Parser Expr := Rule.parser operand

def parseExtension (left : Expr) : Parser Expr :=
  Rule.parser fun turns expr => extend turns expr left

def parseConditional (position : Position) : Parser Expr :=
  Rule.parser fun turns expr => conditional turns expr turns position

def parseStatement : Parser Statement := Rule.parser statement

def parseExpressionStatement : Parser Statement :=
  Rule.parser fun _ expr => expressionStatement expr

def parseVar : Parser Statement := Rule.parser fun _ expr => varStatement expr

def parseBlock : Parser Block := Rule.parser block

end Parser

end ScriptLang
