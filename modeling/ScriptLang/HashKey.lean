-- The keys of hashes. A key is known by its kind and a number of 64 bits; floats that agree
-- to ten places are the same key.
import ScriptLang.Value

namespace ScriptLang

/-- The number of a run of bytes: every byte is mixed in and multiplied. -/
def fnv1a (bytes : List UInt8) : UInt64 :=
  bytes.foldl (fun hash byte => (hash ^^^ byte.toUInt64) * 0x100000001b3) 0xcbf29ce484222325

/-- The number of a text. -/
def textHash (text : String) : UInt64 := fnv1a text.toUTF8.toList

/-- The number of a float. -/
def floatHash (x : Float) : UInt64 := textHash (FloatText.key x)

/-- The kinds of values that are keys. -/
inductive HashKind where
  | integer
  | float
  | string
  | boolean
  deriving DecidableEq, Repr

/-- What identifies a key. -/
structure HashKey where
  kind : HashKind
  hash : UInt64
  deriving DecidableEq, Repr

/-- The key of a value, if the value can be one. -/
def HashKey.of? : Value → Option HashKey
  | .integer n => some ⟨.integer, n.toUInt64⟩
  | .float x => some ⟨.float, floatHash x⟩
  | .string s => some ⟨.string, textHash s⟩
  | .boolean b => some ⟨.boolean, if b then 1 else 0⟩
  | _ => none

end ScriptLang
