-- The text of a value. A collection that is met again inside itself is written as a mark, so
-- the text of every value is finite.
import ScriptLang.Store
import ScriptLang.Tree.Text

namespace ScriptLang

/-- A collection that is being written. -/
inductive OpenCollection where
  | array (id : ArrayId)
  | hash (id : HashId)
  deriving DecidableEq, Repr

/-- The text of a function: its name and parameters. -/
def FunctionLiteral.heading (literal : FunctionLiteral) : String :=
  "function" ++ (match literal.name with | some name => " " ++ name | none => "") ++
    "(" ++ commaSeparated (parameterTexts literal.parameters) ++ ")"

namespace Definitions

/-- The text of a value that is not a collection. -/
def scalarText (d : Definitions) : Value → String
  | .integer n => toString n.toInt
  | .float x => FloatText.display x
  | .string text => text
  | .boolean b => boolText b
  | .null => "null"
  | .function id =>
    match d.function? id with
    | some closure => closure.literal.heading
    | none => ""
  | .builtin b => "builtin function " ++ b.name
  | .error fault => "ERROR: " ++ fault.message
  | .breaking => "break"
  | .enum id =>
    match d.enum? id with
    | some type => "enum " ++ type.name
    | none => ""
  | .plugin id =>
    match d.plugin? id with
    | some plugin => "plugin " ++ plugin.name
    | none => ""
  | .array _ | .hash _ | .returning _ => ""

/-- The text of a value inside a collection: a string stands between quotes. -/
def elementText (text : Value → String) : Value → String
  | .string s => quoted s
  | value => text value

/-- The text of a value inside the collections `above`, looking so many levels deep. -/
def renderWithin (d : Definitions) (heap : Heap) : Nat → List OpenCollection → Value → String
  | 0, _, _ => ""
  | depth + 1, above, value =>
    match value.payload with
    | .array id =>
      if above.contains (.array id) then "[...]"
      else
        let item := elementText (d.renderWithin heap depth (.array id :: above))
        "[" ++ commaSeparated ((heap.array id).toList.map item) ++ "]"
    | .hash id =>
      if above.contains (.hash id) then openBrace ++ "..." ++ closeBrace
      else
        let item := elementText (d.renderWithin heap depth (.hash id :: above))
        openBrace ++
          commaSeparated ((heap.hash id).entries.map fun e => item e.key ++ ": " ++ item e.value)
          ++ closeBrace
    | scalar => d.scalarText scalar

/-- The text of a value. Collections that are written inside each other are different, so
there are at most as many levels as collections, and one for what is inside the last. -/
def render (d : Definitions) (heap : Heap) (value : Value) : String :=
  d.renderWithin heap (heap.size + 1) [] value

/-- The text of a value as it stands inside a collection. -/
def inspect (d : Definitions) (heap : Heap) : Value → String :=
  elementText (d.render heap)

end Definitions

/-- The text of a value of a store. -/
def Store.render (s : Store) (value : Value) : String := s.definitions.render s.heap value

end ScriptLang
