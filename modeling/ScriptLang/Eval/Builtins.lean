-- What the builtin functions do.
import ScriptLang.Eval.Monad
import ScriptLang.Value.Copy

namespace ScriptLang

namespace Eval

/-- The length of a string in characters, of an array or of a hash. -/
def lengthOf (value : Value) : Eval Value := do
  match value with
  | .string s => return .integer (Integer.ofLength s.length)
  | .array id => return .integer (Integer.ofLength ((← heap).array id).size)
  | .hash id => return .integer (Integer.ofLength ((← heap).hash id).size)
  | other => fault (.lenUnsupported other.kind)

/-- A copy of a value. -/
def copied (value : Value) : Eval Value :=
  onHeap fun heap =>
    let copy := heap.copy value
    .ok copy.1 copy.2

/-- A new array with copies of values. -/
def copiedArray (values : List Value) : Eval Value :=
  onHeap fun heap =>
    let copies := Heap.copyList (Heap.copyWithin (heap.size + 1)) heap values
    Method.newArray copies.1 copies.2

/-- A copy of the first element, or `null`. -/
def firstOf (value : Value) : Eval Value := do
  match value with
  | .array id => copied (((← heap).array id)[0]?.getD .null)
  | other => fault (.argumentKind .first .array other.kind)

/-- A copy of the last element, or `null`. -/
def lastOf (value : Value) : Eval Value := do
  match value with
  | .array id => copied (((← heap).array id).back?.getD .null)
  | other => fault (.argumentKind .last .array other.kind)

/-- Copies of all elements but the first, or `null` if there is no first. -/
def restOf (value : Value) : Eval Value := do
  match value with
  | .array id =>
    match ((← heap).array id).toList with
    | [] => return .null
    | _ :: tail => copiedArray tail
  | other => fault (.argumentKind .rest .array other.kind)

/-- Copies of the elements and of one more value. -/
def pushOnto (value item : Value) : Eval Value := do
  match value with
  | .array id => copiedArray (((← heap).array id).toList ++ [item])
  | other => fault (.argumentKind .push .array other.kind)

/-- Writes every value on a line of its own. -/
def putLines : List Value → Eval Unit
  | [] => return ()
  | value :: rest => do
    let text ← render value
    onSink (Sink.write (text ++ "\n"))
    putLines rest

/-- The seconds since 1970, and zero before that. -/
def time (host : Host) : Eval Value := do
  let seconds ← draw (Inputs.reading host.clock)
  return .integer (Integer.clamp (max 0 seconds))

/-- A random float, or a random integer below a bound. -/
def random (host : Host) : List Value → Eval Value
  | [] => do return .float (← draw (Inputs.drawn host.generator.unit))
  | .integer n :: _ =>
    if 0 < n.toInt then do
      return .integer (← draw (Inputs.drawn (host.generator.below · n)))
    else fault (.randNotPositive n)
  | other :: _ => fault (.argumentKind .rand .integer other.kind)

/-- A random integer is not negative and less than its bound. Only the generator moves on. -/
theorem random_below (host : Host) {bound : Int64} (h : 0 < bound.toInt) (rest : List Value)
    (m : Machine) :
    ∃ n state, random host (.integer bound :: rest) m =
        .ok (.integer n) { m with inputs := { m.inputs with random := state } } ∧
      0 ≤ n.toInt ∧ n.toInt < bound.toInt := by
  have hrange := host.generator.below_range m.inputs.random bound h
  refine ⟨_, (host.generator.below m.inputs.random bound).2, ?_, hrange⟩
  simp only [random]
  rw [if_pos h]
  rfl

/-- Ends the run with a status of 32 bits. -/
def exitWith : List Value → Eval Value
  | [] => fail (.exit 0)
  | .integer n :: _ =>
    if -2147483648 ≤ n.toInt ∧ n.toInt ≤ 2147483647 then fail (.exit n.toInt)
    else fault (.exitOutOfRange n)
  | other :: _ => fault (.argumentKind .exit .integer other.kind)

/-- A plugin of the host. -/
def findPlugin (host : Host) (value : Value) : Eval Value :=
  match value with
  | .string name =>
    match host.pluginId? name with
    | some id => return .plugin id
    | none => fault (.pluginNotFound name)
  | other => fault (.argumentKind .plugin .string other.kind)

/-- Applies a builtin function to as many arguments as it takes. -/
def runBuiltin (host : Host) (b : Builtin) (args : List Value) : Eval Value :=
  let first := args.headD .null
  match b with
  | .len => lengthOf first
  | .first => firstOf first
  | .last => lastOf first
  | .rest => restOf first
  | .push => pushOnto first ((args.drop 1).headD .null)
  | .puts => do
    putLines args
    onSink Sink.flush
    return .null
  | .time => time host
  | .rand => random host args
  | .args => newArray (host.args.map Value.string)
  | .exit => exitWith args
  | .plugin => findPlugin host first
  | .type => return .string first.kind.name

/-- Applies a builtin function, if the number of arguments is right. -/
def applyBuiltin (host : Host) (b : Builtin) (args : List Value) : Eval Value :=
  if b.arity.accepts args.length then runBuiltin host b args
  else fault (.builtinArity b args.length)

end Eval

end ScriptLang
