-- The arrays and hashes that a program has made. A program can change them, and every value
-- that names one sees the change.
import ScriptLang.HashObject

namespace ScriptLang

/-- The collections of a running program. None is ever taken away. -/
structure Heap where
  arrays : Array (Array Value)
  hashes : Array HashObject

namespace Heap

def empty : Heap := ⟨#[], #[]⟩

/-- How many collections there are. -/
def size (h : Heap) : Nat := h.arrays.size + h.hashes.size

def array (h : Heap) (id : ArrayId) : Array Value := h.arrays.getD id.index #[]

def hash (h : Heap) (id : HashId) : HashObject := h.hashes.getD id.index .empty

/-- A new array. -/
def newArray (h : Heap) (items : Array Value) : ArrayId × Heap :=
  (⟨h.arrays.size⟩, { h with arrays := h.arrays.push items })

/-- A new hash. -/
def newHash (h : Heap) (object : HashObject) : HashId × Heap :=
  (⟨h.hashes.size⟩, { h with hashes := h.hashes.push object })

def modifyArray (h : Heap) (id : ArrayId) (f : Array Value → Array Value) : Heap :=
  { h with arrays := h.arrays.modify id.index f }

def modifyHash (h : Heap) (id : HashId) (f : HashObject → HashObject) : Heap :=
  { h with hashes := h.hashes.modify id.index f }

end Heap

end ScriptLang
