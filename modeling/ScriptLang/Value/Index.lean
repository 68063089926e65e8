-- Reading, writing and deleting one element of a collection.
import ScriptLang.Heap
import ScriptLang.Number.Integer

namespace ScriptLang

/-- A change of the collections that may fail. -/
abbrev HeapOp := EStateM Fault Heap

namespace Heap

/-- The element of a collection. What is not there reads as `null`. -/
def index (heap : Heap) (container key : Value) : Value :=
  match container with
  | .array id =>
    match key with
    | .integer i =>
      match Integer.toIndex? i with
      | some slot => (heap.array id)[slot]?.getD .null
      | none => .null
    | other => .error (.indexNotInteger other.kind)
  | .hash id =>
    match HashKey.of? key with
    | some k =>
      match (heap.hash id).get? k with
      | some entry => entry.value
      | none => .null
    | none => .error (.unhashable key.kind)
  | other => .error (.indexUnsupported other.kind)

/-- Writes an element. An array grows by writing right behind its end. -/
def write (container key value : Value) : HeapOp Unit := do
  match container with
  | .array id =>
    match key with
    | .integer i =>
      let length := ((← get).array id).size
      match Integer.toIndex? i with
      | some slot =>
        if slot < length then modify (·.modifyArray id (·.setIfInBounds slot value))
        else if slot = length then modify (·.modifyArray id (·.push value))
        else throw (.indexOutOfRange i length)
      | none => throw (.indexOutOfRange i length)
    | other => throw (.indexNotInteger other.kind)
  | .hash id =>
    match HashKey.of? key with
    | some _ => modify (·.modifyHash id (·.insert key value))
    | none => throw (.unhashable key.kind)
  | other => throw (.indexAssignUnsupported other.kind)

/-- Deletes an element. Later elements of an array move down; a hash need not have the key. -/
def delete (container key : Value) : HeapOp Unit := do
  match container with
  | .array id =>
    match key with
    | .integer i =>
      let length := ((← get).array id).size
      match Integer.toIndex? i with
      | some slot =>
        if slot < length then modify (·.modifyArray id (·.eraseIdxIfInBounds slot))
        else throw (.indexOutOfRange i length)
      | none => throw (.indexOutOfRange i length)
    | other => throw (.indexNotInteger other.kind)
  | .hash id =>
    match HashKey.of? key with
    | some k => modify (·.modifyHash id (·.erase k))
    | none => throw (.unhashable key.kind)
  | other => throw (.deleteUnsupported other.kind)

end Heap

end ScriptLang
