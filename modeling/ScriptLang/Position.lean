-- Where a piece of source text starts: a line and a column.

namespace ScriptLang

/-- A place in a source text. Lines and columns count from one, columns in bytes. -/
structure Position where
  line : Nat
  column : Nat
  deriving DecidableEq, Repr, Inhabited

namespace Position

/-- The first place of every text. -/
def start : Position := ⟨1, 1⟩

/-- The place that is reported when there is no token left to point at. -/
def nowhere : Position := ⟨0, 0⟩

/-- How diagnostics write a place. -/
def text (p : Position) : String :=
  "[Line: " ++ toString p.line ++ ", Offset: " ++ toString p.column ++ "]"

end Position

end ScriptLang
