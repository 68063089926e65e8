-- Running programs. A session keeps its state from one program to the next, also after a
-- program that failed.
import ScriptLang.Eval.Expression

namespace ScriptLang

/-- Why a program has no result. -/
inductive Failure where
  | malformed (errors : List ParseError)
  | fatal (reason : Fatal)
  | outOfFuel

def Failure.message : Failure → String
  | malformed errors => "\n".intercalate (errors.map ParseError.message)
  | fatal reason => reason.message
  | outOfFuel => "out of fuel"

/-- A host and the state of the programs that run on it. -/
structure Session where
  host : Host
  machine : Machine

namespace Session

/-- A session in which nothing has run. -/
def start (host : Host) (sink : Sink) (seed : UInt64) : Session :=
  ⟨host, Machine.start host sink seed⟩

/-- Runs the statements of a program. -/
def runProgram (fuel : Nat) (program : Program) : Session → Except Failure Value × Session
  | ⟨host, machine⟩ =>
    match (Eval.program host fuel program : Eval Value) machine with
    | .ok value machine => (.ok value, ⟨host, machine⟩)
    | .error (.fatal reason) machine => (.error (.fatal reason), ⟨host, machine⟩)
    | .error .outOfFuel machine => (.error .outOfFuel, ⟨host, machine⟩)

/-- Runs a program from its source text. A program that cannot be read changes nothing. -/
def run (fuel : Nat) (source : String) (session : Session) : Except Failure Value × Session :=
  let parsed := parseProgram source
  if parsed.errors.isEmpty then session.runProgram fuel parsed.program
  else (.error (.malformed parsed.errors), session)

/-- The value of a name in the current scope. -/
def get? (session : Session) (name : String) : Option Value :=
  session.machine.store.scopes.get? session.machine.scope name

/-- Binds a name in the current scope. -/
def define (session : Session) (name : String) (value : Value) : Session :=
  let m := session.machine
  let scopes := m.store.scopes.define m.scope name value
  { session with machine := { m with store := { m.store with scopes } } }

/-- Binds a name where it is bound already, and tells whether it was. -/
def assign (session : Session) (name : String) (value : Value) : Bool × Session :=
  let m := session.machine
  match m.store.scopes.assign? m.scope name value with
  | some scopes => (true, { session with machine := { m with store := { m.store with scopes } } })
  | none => (false, session)

/-- The names that are bound, as a listing for the host. -/
def listing (session : Session) : String :=
  session.machine.store.scopes.listing session.machine.scope

/-- Runs a program on a plain host in a new global scope, with the collections of the session at
hand. The scope, the open calls and the imports of the session stay as they are. -/
def runApart (fuel : Nat) (source : String) (session : Session) :
    Except Failure Value × Session :=
  let m := session.machine
  let made := m.store.scopes.newGlobal
  let apart : Machine :=
    { Machine.start Host.plain Sink.unlimited 0 with
      store := { m.store with scopes := made.2 }
      scope := made.1 }
  let result := run fuel source ⟨Host.plain, apart⟩
  (result.1, { session with machine := { m with store := result.2.machine.store } })

end Session

/-- More steps than any program takes in a lifetime. -/
def ampleFuel : Nat := Nat.pow 10 15

end ScriptLang
