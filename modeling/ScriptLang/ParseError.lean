-- What can be wrong with a source text, and how it is told.
import ScriptLang.Token

namespace ScriptLang

/-- What is wrong at a place of a source text. Expressions are kept as their text. -/
inductive ParseCause where
  | unexpectedToken (expected found : TokenKind)
  /-- No expression starts with this token. -/
  | noExpression (found : TokenKind)
  | illegalToken (literal : String)
  | invalidInteger (literal : String)
  | invalidFloat (literal : String)
  | duplicateBranch (name branch : String)
  /-- Neither a name nor an index expression stands before the assignment. -/
  | invalidAssignmentTarget (target : String)
  | invalidDeleteTarget (target : String)
  | expectedIdentifier (operator target : String)
  | invalidParameter (parameter : String)
  | requiredAfterDefault (name : String)
  deriving DecidableEq, Repr

def ParseCause.message : ParseCause → String
  | unexpectedToken expected found =>
    "expected next token to be " ++ expected.text ++ ", got " ++ found.text ++ " instead"
  | noExpression found => "no prefix parse function for " ++ found.text ++ " found"
  | illegalToken literal => "illegal token " ++ literal
  | invalidInteger literal => "could not parse " ++ literal ++ " as integer"
  | invalidFloat literal => "could not parse " ++ literal ++ " as float"
  | duplicateBranch name branch => "duplicate enum branch " ++ name ++ "::" ++ branch
  | invalidAssignmentTarget target => "invalid assignment target " ++ target
  | invalidDeleteTarget target => "delete expects an index expression, got " ++ target
  | expectedIdentifier operator target =>
    operator ++ " expects an identifier, got " ++ target
  | invalidParameter parameter => "invalid parameter " ++ parameter
  | requiredAfterDefault name =>
    "required parameter " ++ name ++ " follows a defaulted parameter"

/-- A fault of a source text and its place. -/
structure ParseError where
  cause : ParseCause
  position : Position
  deriving DecidableEq, Repr

def ParseError.message (e : ParseError) : String :=
  e.cause.message ++ " at " ++ e.position.text

end ScriptLang
