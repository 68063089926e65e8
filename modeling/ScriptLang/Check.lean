-- Looking for doubtful names without running a program: a variable that is read in its own
-- initializer, and a name that hides a builtin function.
import ScriptLang.Tree
import ScriptLang.Builtin

namespace ScriptLang

/-- What is doubtful about a name. -/
inductive DiagnosticKind where
  | selfReference
  | shadowsBuiltin
  deriving DecidableEq, Repr

/-- A doubtful name and its place. -/
structure Diagnostic where
  kind : DiagnosticKind
  name : String
  position : Position
  deriving DecidableEq, Repr

def Diagnostic.message (d : Diagnostic) : String :=
  match d.kind with
  | .selfReference =>
    "cannot read " ++ d.name ++ " in its own initializer at " ++ d.position.text
  | .shadowsBuiltin =>
    d.name ++ " shadows the builtin function " ++ d.name ++ " at " ++ d.position.text

/-- The names of a scope, each with whether it has its value. -/
abbrev Marks := List (String × Bool)

/-- The scopes that are being looked at, with what was found so far. The innermost scope is always
there: the one of the program is never left. -/
structure Checker where
  /-- The names of the innermost scope. -/
  marks : Marks
  /-- The scopes around it, from the inside to the outside. -/
  outer : List Marks
  found : List Diagnostic

namespace Checker

/-- Only the scope of the program is open. -/
def start : Checker := ⟨[], [], []⟩

def report (c : Checker) (kind : DiagnosticKind) (name : String) (position : Position) :
    Checker :=
  { c with found := c.found ++ [⟨kind, name, position⟩] }

/-- A name gets a mark when its initializer starts. A name that is there keeps its mark. -/
def declare (name : String) (c : Checker) : Checker :=
  match c.marks.lookup name with
  | some _ => c
  | none => { c with marks := (name, false) :: c.marks }

/-- A name has its value. -/
def define (name : String) (c : Checker) : Checker :=
  { c with marks := (name, true) :: c.marks }

/-- A name is read. -/
def read (name : String) (position : Position) (c : Checker) : Checker :=
  if c.marks.lookup name = some false then c.report .selfReference name position else c

/-- A name is bound. -/
def bind (name : String) (position : Position) (c : Checker) : Checker :=
  if (Builtin.ofName? name).isSome then c.report .shadowsBuiltin name position else c

/-- A scope opens without names. -/
def enter (c : Checker) : Checker :=
  { c with marks := [], outer := c.marks :: c.outer }

/-- The innermost scope closes, and its names are forgotten. -/
def leave (c : Checker) : Checker :=
  { c with marks := c.outer.headD [], outer := c.outer.tail }

/-- Looks at a scope of its own. -/
def inside (look : Checker → Checker) (c : Checker) : Checker :=
  (look c.enter).leave

end Checker

mutual

/-- Looks at an expression in the order in which it is written. -/
def Expr.check : Expr → Checker → Checker
  | .integer _ _, c => c
  | .float _ _, c => c
  | .string _ _, c => c
  | .boolean _ _, c => c
  | .null _, c => c
  | .identifier name position, c => c.read name position
  | .step _ name position, c => c.read name position
  | .scopeAccess name _ position, c => c.read name position
  | .unary _ operand _, c => operand.check c
  | .binary _ left right _, c => right.check (left.check c)
  | .elvis left right _, c => right.check (left.check c)
  | .assign target _ value _, c => value.check (target.check c)
  | .call function arguments _, c => checkExprs arguments (function.check c)
  | .index container key _, c => key.check (container.check c)
  | .array elements _, c => checkExprs elements c
  | .hash pairs _, c => checkPairs pairs c
  | .conditional condition consequence alternative _, c =>
    let c := consequence.check (condition.check c)
    match alternative with
    | some block => block.check c
    | none => c
  | .ternary condition consequence alternative _, c =>
    alternative.check (consequence.check (condition.check c))
  | .loop initializer condition update body _, c =>
    c.inside fun c =>
      let c := match initializer with
        | some statement => statement.check c
        | none => c
      let c := match condition with
        | some expr => expr.check c
        | none => c
      let c := match update with
        | some expr => expr.check c
        | none => c
      body.check c
  | .function (.mk name parameters (.mk statements _)) position, c =>
    let c := match name with
      | some name => (c.bind name position).define name
      | none => c
    c.inside fun c => checkStatements statements (checkParameters position parameters c)
  | .methodCall receiver _ arguments _, c => checkExprs arguments (receiver.check c)
  | .importFile path _, c => path.check c

def checkExprs : List Expr → Checker → Checker
  | [], c => c
  | expr :: rest, c => checkExprs rest (expr.check c)

def checkPairs : List (Expr × Expr) → Checker → Checker
  | [], c => c
  | (key, value) :: rest, c => checkPairs rest (value.check (key.check c))

/-- A parameter is bound behind its default, at the place of its function. -/
def checkParameters (position : Position) : List Parameter → Checker → Checker
  | [], c => c
  | .required name :: rest, c =>
    checkParameters position rest ((c.bind name position).define name)
  | .defaulted name default :: rest, c =>
    checkParameters position rest (((default.check c).bind name position).define name)

/-- A block is a scope of its own. -/
def Block.check : Block → Checker → Checker
  | .mk statements _, c => c.inside fun c => checkStatements statements c

def checkStatements : List Statement → Checker → Checker
  | [], c => c
  | statement :: rest, c => checkStatements rest (statement.check c)

def Statement.check : Statement → Checker → Checker
  | .var name value position, c =>
    (value.check ((c.bind name position).declare name)).define name
  | .assignment target _ value _, c => value.check (target.check c)
  | .returning (some value) _, c => value.check c
  | .returning none _, c => c
  | .breaking _, c => c
  | .delete target _, c => target.check c
  | .enum name branches position, c =>
    ((checkBranches branches c).bind name position).define name
  | .expression expr _, c => expr.check c

def checkBranches : List (String × Expr) → Checker → Checker
  | [], c => c
  | (_, value) :: rest, c => checkBranches rest (value.check c)

end

/-- The doubtful names of a program, in the order in which they are found. -/
def checkProgram (program : Program) : List Diagnostic :=
  (checkStatements program Checker.start).found

end ScriptLang
