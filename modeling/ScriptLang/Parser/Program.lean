-- Reading a whole source text. A statement that cannot be read is recorded and left at the
-- next place where a statement may end, so one fault does not hide the next.
import ScriptLang.Parser.Expression
import ScriptLang.Token.Scan

namespace ScriptLang

/-- What reading a source text gives: the statements that could be read and the errors, both
in the order of the text. -/
structure ParseResult where
  program : Program
  errors : List ParseError

namespace Parser

/-- The tokens behind the end of a broken statement: behind the next semicolon, or from the
next closing brace or the end of the text on. -/
def synchronized : List Token → List Token
  | [] => []
  | token :: rest =>
    match token.kind with
    | .semicolon => rest
    | .rightBrace | .endOfText => token :: rest
    | _ => synchronized rest

/-- Reads statements up to the end of the text. While `recovering` from an error, a closing
brace belongs to a block that was given up. -/
def statements : Nat → Bool → List Token → ParseResult
  | 0, _, _ => ⟨[], []⟩
  | turns + 1, recovering, tokens =>
    let ts := afterSemicolons tokens
    match headKind ts, recovering with
    | .endOfText, _ => ⟨[], []⟩
    | .rightBrace, true => statements turns true (ts.drop 1)
    | _, _ =>
      match parseStatement ts with
      | .ok first rest =>
        let result := statements turns false rest
        { result with program := first :: result.program }
      | .error error rest =>
        let result := statements turns true (synchronized rest)
        { result with errors := error :: result.errors }

end Parser

/-- Reads a program from its tokens. A turn takes a token, except that a broken statement may
stop before a closing brace, which the next turn takes. -/
def parseTokens (tokens : List Token) : ParseResult :=
  Parser.statements (2 * tokens.length + 1) false tokens

/-- Reads a program from its source text. -/
def parseProgram (source : String) : ParseResult :=
  parseTokens (tokenize source)

end ScriptLang
