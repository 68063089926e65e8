-- Upper and lower case of texts. One character may become several, and a sigma at the end of
-- a word has a lower-case form of its own.
import ScriptLang.Text.CaseTable
import ScriptLang.Text.CaseClass

namespace ScriptLang

namespace Text

/-- Maps a character by its special mapping, or by the run that covers it. -/
def mapCase (specials : List (Nat × List Nat)) (runs : List CaseRun) (c : Char) : List Char :=
  let n := c.toNat
  match specials.lookup n with
  | some mapped => mapped.map Char.ofNat
  | none =>
    match runs.find? (fun run => run.covers n) with
    | some run => [Char.ofNat (n + run.shift).toNat]
    | none => [c]

def upperChar (c : Char) : List Char :=
  if c.toNat < 128 then [c.toUpper] else mapCase upperSpecials upperRuns c

def lowerChar (c : Char) : List Char :=
  if c.toNat < 128 then [c.toLower] else mapCase lowerSpecials lowerRuns c

/-- Whether the first character that is not skipped has case. -/
def startsCased (cs : List Char) : Bool :=
  match cs.dropWhile isCaseIgnorable with
  | c :: _ => isCased c
  | [] => false

/-- The upper-case sigma, and its lower-case forms inside and at the end of a word. -/
def upperSigma : Char := Char.ofNat 0x3A3

def innerSigma : Char := Char.ofNat 0x3C3

def finalSigma : Char := Char.ofNat 0x3C2

/-- The lower case of a text. `before` are the characters in front of it, the nearest first. -/
def lowerFrom (before : List Char) : List Char → List Char
  | [] => []
  | c :: cs =>
    let mapped :=
      if c = upperSigma then
        if startsCased before && !startsCased cs then [finalSigma] else [innerSigma]
      else lowerChar c
    mapped ++ lowerFrom (c :: before) cs

def upper (text : String) : String := String.ofList (text.toList.flatMap upperChar)

def lower (text : String) : String := String.ofList (lowerFrom [] text.toList)

end Text

end ScriptLang
