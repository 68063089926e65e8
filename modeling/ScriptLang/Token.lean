-- The words and signs that a source text is made of. A token keeps its kind,
-- its text and the place where it starts.
import ScriptLang.Position

namespace ScriptLang

/-- What a token is: a literal, a name, a keyword, a sign, a character that belongs to
no token, or the end of the text. -/
inductive TokenKind where
  | float
  | int
  | string
  | name
  | varWord
  | functionWord
  | returnWord
  | breakWord
  | deleteWord
  | enumWord
  | caseWord
  | ifWord
  | elseWord
  | forWord
  | trueWord
  | falseWord
  | nullWord
  | importWord
  | assign
  | plusAssign
  | minusAssign
  | starAssign
  | slashAssign
  | plus
  | minus
  | star
  | starStar
  | slash
  | percent
  | bang
  | increment
  | decrement
  | equal
  | notEqual
  | less
  | greater
  | lessEqual
  | greaterEqual
  | and
  | or
  | question
  | elvis
  | comma
  | semicolon
  | colon
  | doubleColon
  | dot
  | leftParen
  | rightParen
  | leftBrace
  | rightBrace
  | leftBracket
  | rightBracket
  | illegal
  | endOfText
  deriving DecidableEq, Repr, Inhabited

namespace TokenKind

/-- The text of a keyword or a sign, and the class name of every other kind. -/
def text : TokenKind → String
  | float => "FLOAT"
  | int => "INT"
  | string => "STRING"
  | name => "IDENT"
  | varWord => "var"
  | functionWord => "function"
  | returnWord => "return"
  | breakWord => "break"
  | deleteWord => "delete"
  | enumWord => "enum"
  | caseWord => "case"
  | ifWord => "if"
  | elseWord => "else"
  | forWord => "for"
  | trueWord => "true"
  | falseWord => "false"
  | nullWord => "null"
  | importWord => "import"
  | assign => "="
  | plusAssign => "+="
  | minusAssign => "-="
  | starAssign => "*="
  | slashAssign => "/="
  | plus => "+"
  | minus => "-"
  | star => "*"
  | starStar => "**"
  | slash => "/"
  | percent => "%"
  | bang => "!"
  | increment => "++"
  | decrement => "--"
  | equal => "=="
  | notEqual => "!="
  | less => "<"
  | greater => ">"
  | lessEqual => "<="
  | greaterEqual => ">="
  | and => "&&"
  | or => "||"
  | question => "?"
  | elvis => "?:"
  | comma => ","
  | semicolon => ";"
  | colon => ":"
  | doubleColon => "::"
  | dot => "."
  | leftParen => "("
  | rightParen => ")"
  | leftBrace => "\x7b"
  | rightBrace => "\x7d"
  | leftBracket => "["
  | rightBracket => "]"
  | illegal => "ILLEGAL"
  | endOfText => "EOF"

/-- The reserved words. -/
def keywords : List TokenKind :=
  [varWord, functionWord, returnWord, breakWord, deleteWord, enumWord, caseWord, ifWord,
   elseWord, forWord, trueWord, falseWord, nullWord, importWord]

/-- The signs, every two-character sign before the one-character signs. -/
def signs : List TokenKind :=
  [plusAssign, minusAssign, starAssign, slashAssign, starStar, increment, decrement, equal,
   notEqual, lessEqual, greaterEqual, and, or, elvis, doubleColon,
   assign, plus, minus, star, slash, percent, bang, less, greater, question, comma,
   semicolon, colon, dot, leftParen, rightParen, leftBrace, rightBrace, leftBracket,
   rightBracket]

/-- The keyword that a word spells, if it spells one. -/
def keyword? (word : String) : Option TokenKind :=
  keywords.find? (fun kind => kind.text = word)

/-- The kind of a word: its keyword, or a name. -/
def ofWord (word : String) : TokenKind :=
  (keyword? word).getD name

end TokenKind

/-- A token of a source text. The literal of a string leaves out its quotes. -/
structure Token where
  kind : TokenKind
  literal : String
  position : Position
  deriving DecidableEq, Repr, Inhabited

end ScriptLang
