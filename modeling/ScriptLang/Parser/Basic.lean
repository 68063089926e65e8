-- Reading tokens one after the other. A parser takes tokens off the front of a list; on
-- failure the list stays where the fault was found, so that recovery can see it.
import ScriptLang.ParseError

namespace ScriptLang

/-- A parser reads from the tokens ahead and gives a result or an error. -/
abbrev Parser := EStateM ParseError (List Token)

namespace Parser

/-- The kind of the next token. Where no token is left it is the end of the text. -/
def headKind : List Token → TokenKind
  | token :: _ => token.kind
  | [] => .endOfText

/-- The place of the next token. -/
def headPosition : List Token → Position
  | token :: _ => token.position
  | [] => .nowhere

def peekKind : Parser TokenKind := fun ts => .ok (headKind ts) ts

def peekPosition : Parser Position := fun ts => .ok (headPosition ts) ts

/-- Fails with a cause at a place. -/
def failAt {α : Type} (position : Position) (cause : ParseCause) : Parser α :=
  throw ⟨cause, position⟩

/-- Drops the next token. -/
def skip : Parser Unit := fun ts => .ok () (ts.drop 1)

/-- Takes the next token if it has the given kind. -/
def take? (kind : TokenKind) : Parser (Option Token)
  | [] => .ok none []
  | token :: rest =>
    if token.kind = kind then .ok (some token) rest else .ok none (token :: rest)

/-- Takes the next token if it has the given kind, and tells whether it did. -/
def eat (kind : TokenKind) : Parser Bool := do
  return (← take? kind).isSome

/-- The error for a token that should have been of the kind `expected`. -/
def unexpected (expected : TokenKind) : List Token → ParseError
  | token :: _ =>
    if token.kind = .illegal then ⟨.illegalToken token.literal, token.position⟩
    else ⟨.unexpectedToken expected token.kind, token.position⟩
  | [] => ⟨.unexpectedToken expected .endOfText, .nowhere⟩

/-- Fails because the next token is not of the kind `expected`. -/
def failUnexpected {α : Type} (expected : TokenKind) : Parser α :=
  fun ts => .error (unexpected expected ts) ts

/-- Takes the next token, which has to be of the given kind. -/
def expect (kind : TokenKind) : Parser Token := do
  match ← take? kind with
  | some token => return token
  | none => failUnexpected kind

/-- Reads a name. -/
def identifier : Parser String := do
  return (← expect .name).literal

/-- What a loop does when its turns are used up: it fails, and at no place of the text. Every turn
of a loop takes a token and there are more turns than tokens, so no loop comes to this. -/
def outOfTurns {α : Type} : Parser α :=
  fun ts => .error ⟨.noExpression (headKind ts), .nowhere⟩ ts

/-- Reads items with commas between them up to the closing token, which it takes too. A comma
may stand before the closing token. -/
def commaList {α : Type} (item : Parser α) (closing : TokenKind) : Nat → Parser (List α)
  | 0 => outOfTurns
  | turns + 1 => do
    if ← eat closing then
      return []
    let first ← item
    if ← eat .comma then
      return first :: (← commaList item closing turns)
    let _ ← expect closing
    return [first]

/-- The tokens behind the semicolons at the front. -/
def afterSemicolons (ts : List Token) : List Token :=
  ts.dropWhile (fun token => token.kind = .semicolon)

def skipSemicolons : Parser Unit := fun ts => .ok () (afterSemicolons ts)

end Parser

end ScriptLang
