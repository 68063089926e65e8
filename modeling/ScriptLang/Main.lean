-- The program: reads files, carries out the command line and prints what it leaves behind.
import ScriptLang.CommandLine
import Std.Time.DateTime.Timestamp

namespace ScriptLang

/-- The message of the system for a failure, with its number. -/
def systemMessage (details : String) (code : UInt32) : String :=
  details ++ " (os error " ++ toString code.toNat ++ ")"

/-- Why reading a file failed. -/
def fileErrorOf : IO.Error → FileError
  | .noFileOrDirectory _ code details => .other (systemMessage details code)
  | .inappropriateType _ code details => .other (systemMessage details code)
  | .permissionDenied _ code details => .other (systemMessage details code)
  | .invalidArgument _ code details => .other (systemMessage details code)
  | .resourceExhausted _ code details => .other (systemMessage details code)
  | .noSuchThing _ code details => .other (systemMessage details code)
  | .otherError code details => .other (systemMessage details code)
  | other => .other (toString other)

/-- Reads a file as text. -/
def readTextFile (path : String) : IO (Except FileError String) := do
  try
    let bytes ← IO.FS.readBinFile path
    match String.fromUTF8? bytes with
    | some text => return .ok text
    | none => return .error .notText
  catch e => return .error (fileErrorOf e)

/-- Carries out a command line, reading the files that it turns out to need. The clock is read
once, when the program starts. -/
partial def carryOut (now : Int) (seed : UInt64) (words : List String)
    (files : List (String × Except FileError String)) : IO CommandOutcome := do
  let fileText (path : String) : Except FileError String :=
    (files.lookup path).getD (.error (.unread path))
  let outcome := CommandLine.ofWords { Host.plain with fileText, clock := fun _ => now } seed words
  match outcome.unread with
  | some path => carryOut now seed words ((path, ← readTextFile path) :: files)
  | none => return outcome

end ScriptLang

open ScriptLang in
/-- Runs the command line of the program. -/
def main (words : List String) : IO UInt32 := do
  let now := (← Std.Time.Timestamp.now).toSecondsSinceUnixEpoch.val
  let seed := (← IO.getRandomBytes 8).toList.foldl (fun n b => n * 256 + b.toUInt64) 0
  let outcome ← carryOut now seed words []
  let out ← IO.getStdout
  out.write outcome.stdout
  out.flush
  let err ← IO.getStderr
  for warning in outcome.warnings do
    err.putStrLn ("WARN " ++ warning)
  err.putStr outcome.stderr
  return outcome.status.toUInt32
