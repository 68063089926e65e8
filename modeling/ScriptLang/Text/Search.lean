-- Looking for a text inside a text: the occurrences are found from the left and do not
-- overlap.

namespace ScriptLang

namespace Text

/-! ## Characters -/

/-- The characters that `trim` takes away: blanks, line ends and the wide spaces. -/
def isSpace (c : Char) : Bool :=
  let n := c.toNat
  (0x9 ≤ n && n ≤ 0xD) || n == 0x20 || n == 0x85 || n == 0xA0 || n == 0x1680
    || (0x2000 ≤ n && n ≤ 0x200A) || n == 0x2028 || n == 0x2029 || n == 0x202F
    || n == 0x205F || n == 0x3000

/-- Whether `needle` occurs in a text. -/
def occurs (needle : List Char) : List Char → Bool
  | [] => needle.isEmpty
  | c :: cs => needle.isPrefixOf (c :: cs) || occurs needle cs

/-- The parts of a text between the occurrences of the separator `p :: ps`. -/
def parts (p : Char) (ps : List Char) : List Char → List (List Char)
  | [] => [[]]
  | c :: cs =>
    if (p :: ps).isPrefixOf (c :: cs) then [] :: parts p ps (cs.drop ps.length)
    else
      match parts p ps cs with
      | [] => [[c]]
      | first :: rest => (c :: first) :: rest
termination_by cs => cs.length

/-- A text with every occurrence of `p :: ps` replaced. -/
def substitute (p : Char) (ps replacement : List Char) : List Char → List Char
  | [] => []
  | c :: cs =>
    if (p :: ps).isPrefixOf (c :: cs) then
      replacement ++ substitute p ps replacement (cs.drop ps.length)
    else c :: substitute p ps replacement cs
termination_by cs => cs.length

/-! ## Texts -/

/-- The text without spaces at its ends. -/
def trim (text : String) : String :=
  String.ofList ((text.toList.dropWhile isSpace).reverse.dropWhile isSpace).reverse

/-- The parts of a text between the occurrences of a separator. The empty separator cuts
between all characters. -/
def split (text separator : String) : List String :=
  match separator.toList with
  | [] => text.toList.map (fun c => String.ofList [c])
  | p :: ps => (parts p ps text.toList).map String.ofList

/-- The text with every occurrence of `pattern` replaced. The empty pattern occurs around
every character. -/
def replace (text pattern replacement : String) : String :=
  match pattern.toList with
  | [] => String.ofList
      (replacement.toList ++ text.toList.flatMap (fun c => c :: replacement.toList))
  | p :: ps => String.ofList (substitute p ps replacement.toList text.toList)

def contains (text needle : String) : Bool := occurs needle.toList text.toList

def startsWith (text start : String) : Bool := start.toList.isPrefixOf text.toList

def endsWith (text finish : String) : Bool := finish.toList.isSuffixOf text.toList

end Text

end ScriptLang
