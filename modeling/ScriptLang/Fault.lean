-- What a script can do wrong while it runs, and how it is told. A fault stops the script and
-- becomes its result.
import ScriptLang.Operator
import ScriptLang.Builtin
import ScriptLang.ParseError
import ScriptLang.Number.Text

namespace ScriptLang

/-- The kinds of values. -/
inductive Kind where
  | integer
  | float
  | string
  | boolean
  | null
  | array
  | hash
  | function
  | builtin
  | error
  | returning
  | breaking
  | enum
  | plugin
  deriving DecidableEq, Repr

def Kind.name : Kind → String
  | integer => "INTEGER"
  | float => "FLOAT"
  | string => "STRING"
  | boolean => "BOOLEAN"
  | null => "NULL"
  | array => "ARRAY"
  | hash => "HASH"
  | function => "FUNCTION"
  | builtin => "BUILTIN"
  | error => "ERROR"
  | returning => "RETURN_VALUE"
  | breaking => "BREAK"
  | enum => "ENUM"
  | plugin => "PLUGIN"

/-- Why a file could not be read. -/
inductive FileError where
  | notFound
  | notDirectory
  | isDirectory
  | nameTooLong
  | nulInName
  | notText
  /-- The host has a message of its own. -/
  | other (message : String)
  /-- The host has not looked at the file yet. -/
  | unread (path : String)
  deriving DecidableEq, Repr

def FileError.message : FileError → String
  | notFound => "No such file or directory (os error 2)"
  | notDirectory => "Not a directory (os error 20)"
  | isDirectory => "Is a directory (os error 21)"
  | nameTooLong => "File name too long (os error 36)"
  | nulInName => "file name contained an unexpected NUL byte"
  | notText => "stream did not contain valid UTF-8"
  | other message => message
  | unread path => "not read yet: " ++ path

/-- A fault of a running script. Expressions are kept as their text. -/
inductive Fault where
  | unbound (name : String)
  | overflow (op : BinaryOp) (left right : Int64)
  | negateOverflow (n : Int64)
  | stepOverflow (name : String) (op : StepOp)
  | absOverflow (n : Int64)
  | divisionByZero
  | typeMismatch (left : Kind) (op : BinaryOp) (right : Kind)
  | unknownOperator (left : Kind) (op : BinaryOp) (right : Kind)
  | unknownNegate (kind : Kind)
  | unknownStep (kind : Kind) (op : StepOp)
  | unhashable (kind : Kind)
  | noBranch (name branch : String)
  | notAnEnum (name : String)
  | indexNotInteger (kind : Kind)
  | indexOutOfRange (index : Int64) (length : Nat)
  | indexUnsupported (kind : Kind)
  | indexAssignUnsupported (kind : Kind)
  | deleteUnsupported (kind : Kind)
  | cannotDelete (target : String)
  | deleteNotIdentifier (container : String)
  | invalidTarget (target : String)
  | callArity (required total given : Nat)
  | builtinArity (builtin : Builtin) (given : Nat)
  | notAFunction (kind : Kind)
  | lenUnsupported (kind : Kind)
  | argumentKind (builtin : Builtin) (expected given : Kind)
  | randNotPositive (n : Int64)
  | exitOutOfRange (n : Int64)
  | pluginNotFound (name : String)
  | undefinedMethod (method : String) (kind : Kind)
  | methodArity (kind : Kind) (method : String) (expected given : Nat)
  | methodArgument (kind : Kind) (method : String) (given : Kind)
  | notConvertible (x : Float)
  | importPath (kind : Kind)
  | cyclicImport
  | unreadable (reason : FileError)
  | malformed (errors : List ParseError)
  /-- A fault inside an imported file. -/
  | inFile (file : String) (fault : Fault)
  /-- A fault with a message from outside the language. -/
  | custom (message : String)

namespace Fault

/-- The number of arguments that a function takes, as text. -/
def expectedText (required total : Nat) : String :=
  if required = total then Nat.repr required
  else Nat.repr required ++ " to " ++ Nat.repr total

def message : Fault → String
  | unbound name => "identifier not found: " ++ name
  | overflow op left right =>
    "integer overflow: " ++ toString left.toInt ++ " " ++ op.text ++ " " ++ toString right.toInt
  | negateOverflow n => "integer overflow: -" ++ toString n.toInt
  | stepOverflow name op => "integer overflow: " ++ name ++ op.text
  | absOverflow n => "integer overflow: abs(" ++ toString n.toInt ++ ")"
  | divisionByZero => "division by zero"
  | typeMismatch left op right =>
    "type mismatch: " ++ left.name ++ " " ++ op.text ++ " " ++ right.name
  | unknownOperator left op right =>
    "unknown operator: " ++ left.name ++ " " ++ op.text ++ " " ++ right.name
  | unknownNegate kind => "unknown operator: -" ++ kind.name
  | unknownStep kind op => "unknown operator: " ++ kind.name ++ op.text
  | unhashable kind => "unusable as hash key: " ++ kind.name
  | noBranch name branch => "enum " ++ name ++ " has no case " ++ branch
  | notAnEnum name => name ++ " is not an enum"
  | indexNotInteger kind => "array index must be INTEGER, got " ++ kind.name
  | indexOutOfRange index length =>
    "index out of range: " ++ toString index.toInt ++ " (length " ++ Nat.repr length ++ ")"
  | indexUnsupported kind => "index operator not supported: " ++ kind.name
  | indexAssignUnsupported kind => "index assignment not supported: " ++ kind.name
  | deleteUnsupported kind => "delete not supported: " ++ kind.name
  | cannotDelete target => "cannot delete " ++ target
  | deleteNotIdentifier container =>
    "delete target must be an identifier, got " ++ container
  | invalidTarget target => "invalid assignment target: " ++ target
  | callArity required total given =>
    "wrong number of arguments: expected " ++ expectedText required total ++ ", got " ++
      Nat.repr given
  | builtinArity builtin given =>
    "wrong number of arguments to " ++ builtin.name ++ ": expected " ++ builtin.arity.text ++
      ", got " ++ Nat.repr given
  | notAFunction kind => "not a function: " ++ kind.name
  | lenUnsupported kind => "argument to len not supported, got " ++ kind.name
  | argumentKind builtin expected given =>
    "argument to " ++ builtin.name ++ " must be " ++ expected.name ++ ", got " ++ given.name
  | randNotPositive n => "argument to rand must be positive, got " ++ toString n.toInt
  | exitOutOfRange n => "exit status out of range: " ++ toString n.toInt
  | pluginNotFound name => "plugin not found: " ++ name
  | undefinedMethod method kind => "undefined method " ++ method ++ " for " ++ kind.name
  | methodArity kind method expected given =>
    "wrong number of arguments to " ++ kind.name ++ "." ++ method ++ ": expected " ++
      Nat.repr expected ++ ", got " ++ Nat.repr given
  | methodArgument kind method given =>
    "wrong argument type to " ++ kind.name ++ "." ++ method ++ ": expected STRING, got " ++
      given.name
  | notConvertible x => "cannot convert " ++ FloatText.display x ++ " to INTEGER"
  | importPath kind => "import path must be STRING, got " ++ kind.name
  | cyclicImport => "cyclic import"
  | unreadable reason => reason.message
  | malformed errors => "; ".intercalate (errors.map ParseError.message)
  | inFile file fault => file ++ ": " ++ fault.message
  | custom message => message

end Fault

end ScriptLang
