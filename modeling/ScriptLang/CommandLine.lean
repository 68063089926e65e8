-- The command line: what its words ask for and what comes of it.
import ScriptLang.Session
import ScriptLang.Check

namespace ScriptLang

/-- What a command line asks for. -/
structure Options where
  /-- The contents are source text, not the name of a file. -/
  evaluate : Bool
  /-- The program is read and checked, but not run. -/
  checkOnly : Bool
  /-- The interpreter logs what it does. -/
  verbose : Bool
  contents : Option String
  scriptArgs : List String
  deriving DecidableEq, Repr

namespace Options

def start : Options := ⟨false, false, false, none, []⟩

/-- Sets a flag that is not set yet. -/
def set? (options : Options) : Char → Option Options
  | 'e' => if options.evaluate then none else some { options with evaluate := true }
  | 'c' => if options.checkOnly then none else some { options with checkOnly := true }
  | 'v' => if options.verbose then none else some { options with verbose := true }
  | _ => none

/-- Sets the flags of a word such as `-ce`. -/
def setAll? (options : Options) : List Char → Option Options
  | [] => some options
  | c :: cs => (options.set? c).bind (fun options => options.setAll? cs)

/-- Reads one word. -/
def word? (options : Options) (word : String) : Option Options :=
  match word.toList with
  | '-' :: '-' :: _ =>
    match word with
    | "--eval" => options.set? 'e'
    | "--check" => options.set? 'c'
    | "--verbose" => options.set? 'v'
    | _ => none
  | '-' :: c :: cs => options.setAll? (c :: cs)
  | _ =>
    match options.contents with
    | none => some { options with contents := some word }
    | some _ => none

/-- Reads the words of a command line. The words behind `--` are for the script. -/
def read? (options : Options) : List String → Option Options
  | [] => some options
  | "--" :: rest => some { options with scriptArgs := rest }
  | word :: rest => (options.word? word).bind (fun options => options.read? rest)

end Options

/-- What a command leaves behind. -/
structure CommandOutcome where
  status : Nat
  stdout : ByteArray
  stderr : String
  warnings : List String
  /-- A file that the host has to read before the command can be carried out. -/
  unread : Option String

namespace CommandOutcome

def silent (status : Nat) : CommandOutcome := ⟨status, .empty, "", [], none⟩

/-- A failed command with a message. -/
def failure (message : String) : CommandOutcome :=
  { silent 1 with stderr := message ++ "\n" }

end CommandOutcome

/-- The file that a fault asks the host to read. -/
def Fault.unread? : Fault → Option String
  | .inFile _ fault => fault.unread?
  | .unreadable (.unread path) => some path
  | _ => none

namespace CommandLine

/-- Checks a program and warns about its doubtful names. -/
def check (source : String) : CommandOutcome :=
  let parsed := parseProgram source
  if parsed.errors.isEmpty then
    { CommandOutcome.silent 0 with
      warnings := (checkProgram parsed.program).map Diagnostic.message }
  else .failure (Failure.malformed parsed.errors).message

/-- What the result of a program leaves behind. A status has eight bits. -/
def outcome (store : Store) : Except Failure Value → CommandOutcome
  | .ok (.error fault) =>
    { CommandOutcome.failure (store.render (.error fault)) with unread := fault.unread? }
  | .ok _ => .silent 0
  | .error (.fatal (.exit code)) => .silent (code % 256).toNat
  | .error failure => .failure failure.message

/-- Runs a program. -/
def run (host : Host) (seed : UInt64) (source : String) : CommandOutcome :=
  let result := (Session.start host .unlimited seed).run ampleFuel source
  let machine := result.2.machine
  { outcome machine.store result.1 with stdout := machine.sink.written }

/-- Carries out what the options ask for. The host's arguments and import root come from the
options. -/
def execute (host : Host) (seed : UInt64) (options : Options) (contents : String) :
    CommandOutcome :=
  let source : Except FileError (String × String) :=
    if options.evaluate then .ok (contents, ".")
    else (host.fileText contents).map fun text =>
      (text, (Path.parent? contents).getD ".")
  match source with
  | .error (.unread path) => { CommandOutcome.silent 1 with unread := some path }
  | .error reason =>
    .failure ("Failed to read the input file '" ++ contents ++ "': " ++ reason.message)
  | .ok (text, importRoot) =>
    if options.checkOnly then check text
    else run { host with args := options.scriptArgs, importRoot } seed text

/-- The status of a command line that asks for nothing known. -/
def usageStatus : Nat := 2

/-- Carries out a command line. -/
def ofWords (host : Host) (seed : UInt64) (words : List String) : CommandOutcome :=
  match Options.start.read? words with
  | some options =>
    match options.contents with
    | some contents => execute host seed options contents
    | none => .silent usageStatus
  | none => .silent usageStatus

end CommandLine

end ScriptLang
