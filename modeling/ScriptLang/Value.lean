-- The values of a running program. Arrays, hashes, functions, enums and plugins live in the
-- store and a value only names them, so two values may name the same one.
import ScriptLang.Fault

namespace ScriptLang

/-- Names an array of the store. -/
structure ArrayId where
  index : Nat
  deriving DecidableEq, Repr

/-- Names a hash of the store. -/
structure HashId where
  index : Nat
  deriving DecidableEq, Repr

/-- Names a function of the store. -/
structure FunctionId where
  index : Nat
  deriving DecidableEq, Repr

/-- Names an enum of the store. -/
structure EnumId where
  index : Nat
  deriving DecidableEq, Repr

/-- Names a plugin of the store. -/
structure PluginId where
  index : Nat
  deriving DecidableEq, Repr

/-- What evaluating an expression gives. An error, a value on its way out of a function and a
break are signals: they travel like results, but stop what they pass through. -/
inductive Value where
  | integer (n : Int64)
  | float (x : Float)
  | string (s : String)
  | boolean (b : Bool)
  | null
  | array (id : ArrayId)
  | hash (id : HashId)
  | function (id : FunctionId)
  | builtin (b : Builtin)
  | error (fault : Fault)
  | returning (value : Value)
  | breaking
  | enum (id : EnumId)
  | plugin (id : PluginId)

namespace Value

instance : Inhabited Value := ⟨null⟩

def kind : Value → Kind
  | integer _ => .integer
  | float _ => .float
  | string _ => .string
  | boolean _ => .boolean
  | null => .null
  | array _ => .array
  | hash _ => .hash
  | function _ => .function
  | builtin _ => .builtin
  | error _ => .error
  | returning _ => .returning
  | breaking => .breaking
  | enum _ => .enum
  | plugin _ => .plugin

def isError : Value → Bool
  | error _ => true
  | _ => false

/-- Whether a value stops a block early. -/
def isSignal : Value → Bool
  | error _ => true
  | returning _ => true
  | breaking => true
  | _ => false

/-- What a condition makes of a value: only `null` and `false` count as false. -/
def isTruthy : Value → Bool
  | null => false
  | boolean false => false
  | _ => true

/-- The value inside all returns. -/
def payload : Value → Value
  | returning value => value.payload
  | value => value

/-- What a call or a whole program makes of the value of its statements: a return is over, and
a break outside all loops counts as `null`. -/
def settled : Value → Value
  | returning value => value
  | breaking => null
  | value => value

end Value

end ScriptLang
