-- The methods of values, each kind with its own.
import ScriptLang.Value.Index
import ScriptLang.Value.Equality
import ScriptLang.Value.Render
import ScriptLang.Text.Case
import ScriptLang.Text.Search

namespace ScriptLang

namespace Method

/-! ## Arguments -/

/-- Goes on if there are no arguments. -/
def noArguments (kind : Kind) (method : String) (args : List Value) (result : HeapOp Value) :
    HeapOp Value :=
  match args with
  | [] => result
  | _ => throw (.methodArity kind method 0 args.length)

/-- Goes on with the only argument. -/
def oneArgument (kind : Kind) (method : String) (args : List Value)
    (result : Value → HeapOp Value) : HeapOp Value :=
  match args with
  | [a] => result a
  | _ => throw (.methodArity kind method 1 args.length)

/-- The text of an argument that has to be a string. -/
def textArgument (kind : Kind) (method : String) : Value → HeapOp String
  | .string s => return s
  | value => throw (.methodArgument kind method value.kind)

/-- Goes on with the only argument, which has to be a string. -/
def oneText (kind : Kind) (method : String) (args : List Value)
    (result : String → HeapOp Value) : HeapOp Value :=
  oneArgument kind method args fun a => textArgument kind method a >>= result

/-- Goes on with the only argument, which has to be a key. -/
def oneKey (kind : Kind) (method : String) (args : List Value)
    (result : HashKey → HeapOp Value) : HeapOp Value :=
  oneArgument kind method args fun a =>
    match HashKey.of? a with
    | some key => result key
    | none => throw (.unhashable a.kind)

/-- A new array as a result. -/
def newArray (items : List Value) : HeapOp Value := fun heap =>
  let made := heap.newArray items.toArray
  .ok (.array made.1) made.2

/-! ## The methods of each kind -/

def ofString (s : String) (method : String) (args : List Value) : HeapOp Value :=
  match method with
  | "len" => noArguments .string method args (return .integer (Integer.ofLength s.length))
  | "upper" => noArguments .string method args (return .string (Text.upper s))
  | "lower" => noArguments .string method args (return .string (Text.lower s))
  | "trim" => noArguments .string method args (return .string (Text.trim s))
  | "split" => oneText .string method args fun separator =>
      newArray ((Text.split s separator).map Value.string)
  | "contains" => oneText .string method args fun needle =>
      return .boolean (Text.contains s needle)
  | "starts_with" => oneText .string method args fun start =>
      return .boolean (Text.startsWith s start)
  | "ends_with" => oneText .string method args fun finish =>
      return .boolean (Text.endsWith s finish)
  | "replace" =>
    match args with
    | [a, b] => do
      let pattern ← textArgument .string method a
      let replacement ← textArgument .string method b
      return .string (Text.replace s pattern replacement)
    | _ => throw (.methodArity .string method 2 args.length)
  | _ => throw (.undefinedMethod method .string)

/-- The absolute value of an integer, unless it does not fit. -/
def absolute (n : Int64) : HeapOp Value :=
  match Integer.ofExact? n.toInt.natAbs with
  | some m => return .integer m
  | none => throw (.absOverflow n)

def ofInteger (n : Int64) (method : String) (args : List Value) : HeapOp Value :=
  match method with
  | "abs" => noArguments .integer method args (absolute n)
  | "float" => noArguments .integer method args (return .float (Integer.toFloat n))
  | "str" => noArguments .integer method args (return .string (toString n.toInt))
  | _ => throw (.undefinedMethod method .integer)

def ofFloat (x : Float) (method : String) (args : List Value) : HeapOp Value :=
  match method with
  | "abs" => noArguments .float method args (return .float x.abs)
  | "floor" => noArguments .float method args (return .float x.floor)
  | "ceil" => noArguments .float method args (return .float x.ceil)
  | "round" => noArguments .float method args (return .float x.round)
  | "int" => noArguments .float method args
      (if x.isFinite then return .integer (saturatedInteger x) else throw (.notConvertible x))
  | "str" => noArguments .float method args (return .string (FloatText.display x))
  | _ => throw (.undefinedMethod method .float)

def ofBoolean (b : Bool) (method : String) (args : List Value) : HeapOp Value :=
  match method with
  | "str" => noArguments .boolean method args (return .string (boolText b))
  | _ => throw (.undefinedMethod method .boolean)

/-- The array methods: `push` and `pop` change the array itself, `reverse` makes a new one. -/
def ofArray (d : Definitions) (id : ArrayId) (method : String) (args : List Value) :
    HeapOp Value :=
  match method with
  | "len" => noArguments .array method args do
      return .integer (Integer.ofLength ((← get).array id).size)
  | "push" => oneArgument .array method args fun a => do
      modify (·.modifyArray id (·.push a))
      return .null
  | "pop" => noArguments .array method args do
      let last := ((← get).array id).back?.getD .null
      modify (·.modifyArray id (·.pop))
      return last
  | "contains" => oneArgument .array method args fun a => do
      let heap ← get
      return .boolean ((heap.array id).any fun item => heap.equals item a)
  | "join" => oneText .array method args fun separator => do
      let heap ← get
      return .string (separator.intercalate ((heap.array id).toList.map (d.render heap)))
  | "reverse" => noArguments .array method args do
      newArray ((← get).array id).toList.reverse
  | _ => throw (.undefinedMethod method .array)

def ofHash (id : HashId) (method : String) (args : List Value) : HeapOp Value :=
  match method with
  | "keys" => noArguments .hash method args do newArray ((← get).hash id).keys
  | "values" => noArguments .hash method args do newArray ((← get).hash id).values
  | "len" => noArguments .hash method args do
      return .integer (Integer.ofLength ((← get).hash id).size)
  | "has" => oneKey .hash method args fun key => do
      return .boolean (((← get).hash id).get? key).isSome
  | "remove" => oneKey .hash method args fun key => do
      match ((← get).hash id).get? key with
      | some entry =>
        modify (·.modifyHash id (·.erase key))
        return entry.value
      | none => return .null
  | _ => throw (.undefinedMethod method .hash)

def ofEnum (type : EnumType) (method : String) (args : List Value) : HeapOp Value :=
  match method with
  | "names" => noArguments .enum method args
      (newArray (type.branches.map fun branch => .string branch.1))
  | "values" => noArguments .enum method args (newArray (type.branches.map Prod.snd))
  | "has" => oneText .enum method args fun name =>
      return .boolean (type.branches.lookup name).isSome
  | _ => throw (.undefinedMethod method .enum)

/-- A plugin has the functions that the host gave it. -/
def ofPlugin (plugin : Plugin) (method : String) (args : List Value) : HeapOp Value :=
  match plugin.functions.lookup method with
  | some function => fun heap =>
    let result := function args heap
    .ok result.1 result.2
  | none => throw (.undefinedMethod method .plugin)

/-- Calls the method of a value. -/
def call (d : Definitions) (receiver : Value) (method : String) (args : List Value) :
    HeapOp Value :=
  match receiver with
  | .string s => ofString s method args
  | .integer n => ofInteger n method args
  | .float x => ofFloat x method args
  | .boolean b => ofBoolean b method args
  | .array id => ofArray d id method args
  | .hash id => ofHash id method args
  | .enum id =>
    match d.enum? id with
    | some type => ofEnum type method args
    | none => throw (.undefinedMethod method .enum)
  | .plugin id =>
    match d.plugin? id with
    | some plugin => ofPlugin plugin method args
    | none => throw (.undefinedMethod method .plugin)
  | other => throw (.undefinedMethod method other.kind)

end Method

/-- Runs a change of the collections of a store. A fault becomes an error value. -/
def Store.onHeap (op : HeapOp Value) : Store → Value × Store
  | ⟨heap, scopes, definitions⟩ =>
    match op heap with
    | .ok value heap => (value, ⟨heap, scopes, definitions⟩)
    | .error fault heap => (.error fault, ⟨heap, scopes, definitions⟩)

/-- Calls a method. -/
def Store.callMethod (store : Store) (receiver : Value) (method : String) (args : List Value) :
    Value × Store :=
  let d := store.definitions
  store.onHeap (Method.call d receiver method args)

end ScriptLang
