-- Where a program writes. A sink may be full after some bytes, and may refuse to be flushed.

namespace ScriptLang

/-- Why writing failed. -/
inductive SinkError where
  | full
  | flushRefused
  deriving DecidableEq, Repr

def SinkError.message : SinkError → String
  | full => "sink full"
  | flushRefused => "flush refused"

/-- The bytes that were written, and what the sink can take. -/
structure Sink where
  written : ByteArray
  /-- How many bytes the sink takes in all, if there is a limit. -/
  limit : Option Nat
  refusesFlush : Bool

namespace Sink

/-- A sink that takes everything. -/
def unlimited : Sink := ⟨.empty, none, false⟩

/-- Writes a text. Where it does not fit, the bytes that fit are written. -/
def write (text : String) : EStateM SinkError Sink Unit
  | ⟨written, limit, refusesFlush⟩ =>
    let bytes := text.toUTF8
    match limit with
    | none => .ok () ⟨written ++ bytes, limit, refusesFlush⟩
    | some n =>
      if written.size + bytes.size ≤ n then .ok () ⟨written ++ bytes, limit, refusesFlush⟩
      else
        let fitting := bytes.extract 0 (n - written.size)
        .error .full ⟨written ++ fitting, limit, refusesFlush⟩

/-- Flushes the sink. -/
def flush : EStateM SinkError Sink Unit := fun sink =>
  if sink.refusesFlush then .error .flushRefused sink else .ok () sink

/-- The whole characters of bytes that end inside a character. -/
def wholeText (bytes : ByteArray) : String :=
  ([1, 2, 3].findSome? fun cut => String.fromUTF8? (bytes.extract 0 (bytes.size - cut))).getD ""

/-- The text of written bytes. A character that the limit cut in two is shown as U+FFFD. -/
def shownText (bytes : ByteArray) : String :=
  match String.fromUTF8? bytes with
  | some text => text
  | none => (wholeText bytes).push (Char.ofNat 0xFFFD)

end Sink

end ScriptLang
