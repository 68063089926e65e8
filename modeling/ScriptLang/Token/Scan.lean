-- Cutting a source text into tokens. The text is a run of lexemes, each of them a
-- token or a gap (blanks, line feeds, comments). A lexeme is the longest match of
-- its class, so `1.5e` is the number `1.5` before the name `e`.
import ScriptLang.Token

namespace ScriptLang

/-! ## Classes of characters -/

/-- The blanks inside a line. -/
def isBlank (c : Char) : Bool :=
  c == ' ' || c == '\t' || c == '\r' || c == '\x0c'

/-- The characters that a name may start with. -/
def isNameStart (c : Char) : Bool :=
  c.isAlpha || c == '_'

/-- The characters that a name may go on with. -/
def isNameRest (c : Char) : Bool :=
  c.isAlpha || c.isDigit || c == '_'

/-- The digits of hexadecimal numbers. -/
def isHexDigit (c : Char) : Bool :=
  c.isDigit || ('a' ≤ c && c ≤ 'f') || ('A' ≤ c && c ≤ 'F')

/-! ## Lexemes -/

/-- A stretch of source text that is read at once. -/
inductive Lexeme where
  /-- Text that separates tokens. -/
  | gap (raw : List Char)
  /-- The text of one token, with the quotes of a string. -/
  | token (kind : TokenKind) (raw : List Char)
  deriving DecidableEq, Repr

namespace Lexeme

/-- The characters that a lexeme covers. -/
def raw : Lexeme → List Char
  | gap raw => raw
  | token _ raw => raw

/-- The fraction of a number at the head of a text: a dot and at least one digit. -/
def fraction : List Char → List Char
  | '.' :: cs =>
    let digits := cs.takeWhile Char.isDigit
    if digits.isEmpty then [] else '.' :: digits
  | _ => []

/-- The exponent of a number at the head of a text: an `e`, perhaps a sign, and at least
one digit. -/
def exponent : List Char → List Char
  | e :: cs =>
    if e = 'e' ∨ e = 'E' then
      let sign := (cs.take 1).filter (fun c => c == '+' || c == '-')
      let digits := (cs.drop sign.length).takeWhile Char.isDigit
      if digits.isEmpty then [] else e :: (sign ++ digits)
    else []
  | [] => []

/-- The hexadecimal digits behind a leading zero, with the `x` before them. -/
def hexTail : List Char → List Char
  | x :: cs =>
    if x = 'x' ∨ x = 'X' then
      let digits := cs.takeWhile isHexDigit
      if digits.isEmpty then [] else x :: digits
    else []
  | [] => []

/-- The number that starts with the digit `c`. -/
def number (c : Char) (cs : List Char) : Lexeme :=
  let hex := if c = '0' then hexTail cs else []
  if hex.isEmpty then
    let whole := cs.takeWhile Char.isDigit
    let rest := cs.dropWhile Char.isDigit
    let frac := fraction rest
    let expo := exponent (rest.drop frac.length)
    let kind := if frac.isEmpty && expo.isEmpty then TokenKind.int else TokenKind.float
    token kind (c :: (whole ++ frac ++ expo))
  else token TokenKind.int (c :: hex)

/-- The text of a block comment behind its opening, up to and with its end, or to the end
of the source. -/
def commentBody : List Char → List Char
  | '*' :: '/' :: _ => ['*', '/']
  | c :: cs => c :: commentBody cs
  | [] => []

/-- The sign at the head of a text. -/
def sign? (cs : List Char) : Option TokenKind :=
  TokenKind.signs.find? (fun kind => kind.text.toList.isPrefixOf cs)

/-- The lexeme at the head of a text that starts with `c`. -/
def first (c : Char) (cs : List Char) : Lexeme :=
  if c = '\n' then gap [c]
  else if isBlank c then gap (c :: cs.takeWhile isBlank)
  else if c.isDigit then number c cs
  else if isNameStart c then
    let word := c :: cs.takeWhile isNameRest
    token (TokenKind.ofWord (String.ofList word)) word
  else if c = '"' then
    if cs.contains '"' then token .string (c :: (cs.takeWhile (· ≠ '"') ++ ['"']))
    else token .illegal [c]
  else if c = '/' ∧ cs.head? = some '/' then gap (c :: cs.takeWhile (· ≠ '\n'))
  else if c = '/' ∧ cs.head? = some '*' then gap (c :: '*' :: commentBody (cs.drop 1))
  else
    match sign? (c :: cs) with
    | some kind => token kind kind.text.toList
    | none => token .illegal [c]

/-- What a token of the given kind keeps of its text: a string loses its quotes. -/
def literal (kind : TokenKind) (raw : List Char) : String :=
  if kind = .string then String.ofList (raw.drop 1).dropLast else String.ofList raw

end Lexeme

/-! ## Counters -/

/-- How many bytes a text takes. -/
def byteLength : List Char → Nat
  | [] => 0
  | c :: text => c.utf8Size + byteLength text

/-- What is counted while a text is read: the line that has been reached, and the offset at which
that line starts, in bytes. -/
structure Counters where
  line : Nat
  lineStart : Nat
  deriving DecidableEq, Repr

namespace Counters

def start : Counters := ⟨1, 0⟩

/-- The place at an offset of the line that has been reached. -/
def place (counters : Counters) (offset : Nat) : Position :=
  ⟨counters.line, offset - counters.lineStart + 1⟩

/-- Counts the line feeds of a text that stands at an offset. -/
def advanceOver (counters : Counters) (offset : Nat) : List Char → Counters
  | [] => counters
  | c :: cs =>
    let behind := offset + c.utf8Size
    if c = '\n' then advanceOver ⟨counters.line + 1, behind⟩ behind cs
    else counters.advanceOver behind cs

/-- Counts in a gap that stands at an offset: a line feed, or what a block comment holds. Blanks
and comments to the end of a line hold no line feed, and are not looked at. -/
def overGap (counters : Counters) (offset : Nat) : List Char → Counters
  | ['\n'] => ⟨counters.line + 1, offset + 1⟩
  | '/' :: '*' :: body => counters.advanceOver (offset + 2) body
  | _ => counters

/-- Counts in a token that stands at an offset. Only a string can go over several lines. -/
def overToken (counters : Counters) (offset : Nat) (kind : TokenKind) (raw : List Char) :
    Counters :=
  if kind = .string then counters.advanceOver offset raw else counters

end Counters

/-- A token as it is read: the offset at which it starts, and what is counted by then. -/
structure Reading where
  kind : TokenKind
  literal : String
  offset : Nat
  counters : Counters

def Reading.token (reading : Reading) : Token :=
  ⟨reading.kind, reading.literal, reading.counters.place reading.offset⟩

/-- Reads the text that stands at an offset. The counters move behind a gap and behind a token, so
that a token is placed by what was counted before it. -/
def scan (counters : Counters) (offset : Nat) : List Char → List Reading × Counters
  | [] => ([], counters)
  | c :: cs =>
    let lexeme := Lexeme.first c cs
    let behind := offset + byteLength lexeme.raw
    let rest := cs.drop (lexeme.raw.length - 1)
    match lexeme with
    | .gap raw => scan (counters.overGap offset raw) behind rest
    | .token kind raw =>
      let scanned := scan (counters.overToken offset kind raw) behind rest
      (⟨kind, Lexeme.literal kind raw, offset, counters⟩ :: scanned.1, scanned.2)
termination_by cs => cs.length

/-- What is read of a source text, the end of the text included. -/
def readings (source : String) : List Reading :=
  let scanned := scan .start 0 source.toList
  scanned.1 ++ [⟨.endOfText, "", source.utf8ByteSize, scanned.2⟩]

/-! ## Token streams -/

/-- The tokens of a source text and the place of its end. -/
structure TokenStream where
  /-- The tokens that have not been read, the end of the text left out. -/
  ahead : List Token
  /-- The place behind the text. -/
  finish : Position
  /-- Whether the end of the text has been read. -/
  ended : Bool
  deriving Repr

namespace TokenStream

/-- The stream of a source text. -/
def ofSource (source : String) : TokenStream :=
  let scanned := scan .start 0 source.toList
  { ahead := scanned.1.map Reading.token
    finish := scanned.2.place source.utf8ByteSize
    ended := false }

/-- The token that marks the end of the text. -/
def last (s : TokenStream) : Token :=
  ⟨.endOfText, "", s.finish⟩

/-- Every token that has not been read, with the end of the text. -/
def toList (s : TokenStream) : List Token :=
  s.ahead ++ [s.last]

/-- Reads a token. At the end of the text it reads the end again. -/
def nextToken (s : TokenStream) : Token × TokenStream :=
  match s.ahead with
  | token :: rest => (token, { s with ahead := rest })
  | [] => (s.last, { s with ended := true })

/-- Reads a token unless the end of the text has been read. -/
def next? (s : TokenStream) : Option Token × TokenStream :=
  if s.ended then (none, s) else (some s.nextToken.1, s.nextToken.2)

end TokenStream

/-- All tokens of a source text, the end of the text included. -/
def tokenize (source : String) : List Token :=
  (TokenStream.ofSource source).toList

end ScriptLang
