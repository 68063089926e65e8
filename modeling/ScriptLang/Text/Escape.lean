-- Texts between quotes with escapes, as a host reads them in a listing of names.
import ScriptLang.Text.Unprintable

namespace ScriptLang

namespace Text

/-- A character of an escaped text. -/
def escapeChar (c : Char) : String :=
  if c = '"' then "\\\""
  else if c = '\\' then "\\\\"
  else if c = '\n' then "\\n"
  else if c = '\r' then "\\r"
  else if c = '\t' then "\\t"
  else if c.toNat = 0 then "\\0"
  else if isUnprintable c then
    "\\u\x7b" ++ String.ofList (Nat.toDigits 16 c.toNat) ++ "\x7d"
  else String.ofList [c]

/-- A text between quotes, with escapes. -/
def escaped (text : String) : String :=
  "\"" ++ String.join (text.toList.map escapeChar) ++ "\""

/-- A list of items in brackets. -/
def bracketed (items : List String) : String := "[" ++ ", ".intercalate items ++ "]"

end Text

end ScriptLang
