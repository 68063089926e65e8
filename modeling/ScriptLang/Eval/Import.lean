-- Imports: the statements of another file run in the scope that imports it.
import ScriptLang.Eval.Statement
import ScriptLang.Parser.Program

namespace ScriptLang

namespace Host

/-- Where the file that an import names is. -/
def pathOf (host : Host) (file : String) : String := Path.join host.importRoot file

/-- The program of a file, unless the file is among those that are being imported. -/
def load (host : Host) (imports : List String) (file : String) : Except Fault Program :=
  let path := host.pathOf file
  if imports.any (Path.same path) then .error .cyclicImport
  else
    match host.fileText path with
    | .error reason => .error (.unreadable reason)
    | .ok source =>
      let parsed := parseProgram source
      if parsed.errors.isEmpty then .ok parsed.program else .error (.malformed parsed.errors)

end Host

namespace Eval

variable {M : Type → Type} [MonadMachine M]

/-- What an import gives for what the statements of the file gave. -/
def importResult (file : String) : Value → Value
  | .error fault => .error (.inFile file fault)
  | .returning value => value
  | _ => .null

/-- Evaluates the program of a file while the file counts as being imported, or gives the reason
why the file cannot be imported. -/
@[specialize] def inImport {α : Type} (host : Host) (file : String) (run : Program → M α) :
    M (Except Fault α) := do
  let f ← frame
  match host.load f.imports file with
  | .error reason => return .error reason
  | .ok program =>
    let result ← inBracket (.importing (host.pathOf file)) (inFile file (run program))
    return .ok result

/-- Imports a file. -/
@[specialize] def importFile (host : Host) (eval : EvalExpr M) (file : String) : M Value := do
  match ← inImport host file (statements eval .null) with
  | .error reason => fault (.inFile file reason)
  | .ok result => return importResult file result

/-- Imports the file that a value names. -/
@[specialize] def importValue (host : Host) (eval : EvalExpr M) : Value → M Value
  | .string file => importFile host eval file
  | other => fault (.importPath other.kind)

end Eval

end ScriptLang
