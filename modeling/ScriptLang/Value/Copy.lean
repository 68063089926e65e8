-- Copies of values that share no collection with the value they copy.
import ScriptLang.Heap

namespace ScriptLang

namespace Heap

/-- Copies values in a row. -/
def copyList (copy : Heap → Value → Value × Heap) (heap : Heap) :
    List Value → List Value × Heap
  | [] => ([], heap)
  | value :: rest =>
    let first := copy heap value
    let others := copyList copy first.2 rest
    (first.1 :: others.1, others.2)

/-- Copies the entries of a hash into another one. -/
def copyEntries (copy : Heap → Value → Value × Heap) (heap : Heap) (object : HashObject) :
    List HashEntry → HashObject × Heap
  | [] => (object, heap)
  | entry :: rest =>
    let key := copy heap entry.key
    let value := copy key.2 entry.value
    copyEntries copy value.2 (object.insert key.1 value.1) rest

/-- Copies a value, looking into collections so many levels deep. -/
def copyWithin : Nat → Heap → Value → Value × Heap
  | 0, heap, value => (value, heap)
  | depth + 1, heap, value =>
    match value with
    | .array id =>
      let items := copyList (copyWithin depth) heap (heap.array id).toList
      let made := items.2.newArray items.1.toArray
      (.array made.1, made.2)
    | .hash id =>
      let object := copyEntries (copyWithin depth) heap .empty (heap.hash id).entries
      let made := object.2.newHash object.1
      (.hash made.1, made.2)
    | other => (other, heap)

/-- Copies a value with the collections inside it. A value that does not contain itself is at
most as deep as there are collections. -/
def copy (heap : Heap) (value : Value) : Value × Heap :=
  copyWithin (heap.size + 1) heap value

end Heap

end ScriptLang
