-- The canonical text of a tree. Operators are written with parentheses around them, so
-- the text shows how a program was understood.
import ScriptLang.Tree
import ScriptLang.Number.Text

namespace ScriptLang

/-- An opening and a closing brace, as text. -/
def openBrace : String := "\x7b"

def closeBrace : String := "\x7d"

/-- Texts with a comma and a blank between them. -/
def commaSeparated (items : List String) : String := ", ".intercalate items

/-- A text without the semicolons at its end. -/
def withoutSemicolons (text : String) : String :=
  String.ofList (text.toList.reverse.dropWhile (· = ';')).reverse

/-- The text of a truth value. -/
def boolText (b : Bool) : String := if b then "true" else "false"

/-- A text between double quotes. -/
def quoted (text : String) : String := "\"" ++ text ++ "\""

/-- The sign of an assignment: `=`, or the operator before it. -/
def assignSign (op : Option BinaryOp) : String :=
  match op with
  | some op => op.text ++ "="
  | none => "="

mutual

def Expr.text : Expr → String
  | .integer value _ => toString value.toInt
  | .float value _ => FloatText.source value
  | .string value _ => quoted value
  | .boolean value _ => boolText value
  | .null _ => "null"
  | .identifier name _ => name
  | .unary op operand _ => "(" ++ op.text ++ operand.text ++ ")"
  | .binary op left right _ => "(" ++ left.text ++ " " ++ op.text ++ " " ++ right.text ++ ")"
  | .step op name _ => "(" ++ name ++ op.text ++ ")"
  | .assign target op value _ =>
    "(" ++ target.text ++ " " ++ assignSign op ++ " " ++ value.text ++ ")"
  | .call function arguments _ =>
    function.text ++ "(" ++ commaSeparated (exprTexts arguments) ++ ")"
  | .index container key _ => "(" ++ container.text ++ "[" ++ key.text ++ "])"
  | .array elements _ => "[" ++ commaSeparated (exprTexts elements) ++ "]"
  | .hash pairs _ => openBrace ++ commaSeparated (pairTexts pairs) ++ closeBrace
  | .conditional condition consequence alternative _ =>
    "if " ++ condition.text ++ " " ++ consequence.text ++
      match alternative with
      | some block => " else " ++ block.text
      | none => ""
  | .ternary condition consequence alternative _ =>
    "(" ++ condition.text ++ " ? " ++ consequence.text ++ " : " ++ alternative.text ++ ")"
  | .elvis left right _ => "(" ++ left.text ++ " ?: " ++ right.text ++ ")"
  | .loop initializer condition update body _ =>
    let start := match initializer with
      | some statement => withoutSemicolons statement.text
      | none => ""
    let test := match condition with
      | some expr => expr.text
      | none => ""
    let next := match update with
      | some expr => expr.text
      | none => ""
    "for (" ++ start ++ "; " ++ test ++ "; " ++ next ++ ") " ++ body.text
  | .function literal _ => literal.text
  | .methodCall receiver method arguments _ =>
    receiver.text ++ "." ++ method ++ "(" ++ commaSeparated (exprTexts arguments) ++ ")"
  | .scopeAccess name branch _ => name ++ "::" ++ branch
  | .importFile path _ => "import " ++ path.text

def exprTexts : List Expr → List String
  | [] => []
  | expr :: rest => expr.text :: exprTexts rest

def pairTexts : List (Expr × Expr) → List String
  | [] => []
  | (key, value) :: rest => (key.text ++ ": " ++ value.text) :: pairTexts rest

def Parameter.text : Parameter → String
  | .required name => name
  | .defaulted name default => name ++ " = " ++ default.text

def parameterTexts : List Parameter → List String
  | [] => []
  | parameter :: rest => parameter.text :: parameterTexts rest

def FunctionLiteral.text : FunctionLiteral → String
  | .mk name parameters body =>
    "function" ++ (match name with | some name => " " ++ name | none => "") ++
      "(" ++ commaSeparated (parameterTexts parameters) ++ ") " ++ body.text

def Block.text : Block → String
  | .mk statements _ => openBrace ++ " " ++ statementsText " " statements ++ closeBrace

/-- The texts of statements in a row, each with `gap` behind it. -/
def statementsText (gap : String) : List Statement → String
  | [] => ""
  | statement :: rest => statement.text ++ gap ++ statementsText gap rest

def Statement.text : Statement → String
  | .var name value _ => "var " ++ name ++ " = " ++ value.text ++ ";"
  | .assignment target op value _ =>
    "(" ++ target.text ++ " " ++ assignSign op ++ " " ++ value.text ++ ");"
  | .returning (some value) _ => "return " ++ value.text ++ ";"
  | .returning none _ => "return;"
  | .breaking _ => "break;"
  | .delete target _ => "delete " ++ target.text ++ ";"
  | .enum name branches _ =>
    "enum " ++ name ++ " " ++ openBrace ++ " " ++ branchesText branches ++ closeBrace
  | .expression expr _ => expr.text

def branchesText : List (String × Expr) → String
  | [] => ""
  | (branch, value) :: rest => "case " ++ branch ++ ": " ++ value.text ++ "; " ++ branchesText rest

end

/-- The text of a program: its statements with nothing between them. -/
def Program.text (program : Program) : String := statementsText "" program

end ScriptLang
