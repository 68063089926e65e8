-- A hash: entries in the order in which their keys came in, one for each key. Writing to a
-- key that is there keeps its place.
import ScriptLang.HashKey

namespace ScriptLang

/-- An entry of a hash, under the key that identifies it. -/
structure HashEntry where
  hashKey : HashKey
  key : Value
  value : Value

/-- The entries of a hash. -/
structure HashObject where
  entries : List HashEntry

namespace HashObject

instance : Inhabited HashObject := ⟨⟨[]⟩⟩

def empty : HashObject := ⟨[]⟩

def size (h : HashObject) : Nat := h.entries.length

def isEmpty (h : HashObject) : Bool := h.entries.isEmpty

/-- The entry of a key. -/
def get? (h : HashObject) (k : HashKey) : Option HashEntry :=
  h.entries.find? (fun entry => entry.hashKey = k)

/-- Puts an entry in the place of the entry with the same key, or at the end. -/
def put (entry : HashEntry) : List HashEntry → List HashEntry
  | [] => [entry]
  | e :: rest =>
    if e.hashKey = entry.hashKey then entry :: rest else e :: put entry rest

/-- The hash with an entry for a key, or none if the value is not a key. -/
def insert? (h : HashObject) (key value : Value) : Option HashObject :=
  (HashKey.of? key).map fun k => ⟨put ⟨k, key, value⟩ h.entries⟩

/-- The hash with an entry for a key. A value that is not a key changes nothing. -/
def insert (h : HashObject) (key value : Value) : HashObject :=
  (h.insert? key value).getD h

/-- The hash without the entry of a key. -/
def erase (h : HashObject) (k : HashKey) : HashObject :=
  ⟨h.entries.filter (fun entry => entry.hashKey ≠ k)⟩

def keys (h : HashObject) : List Value := h.entries.map HashEntry.key

def values (h : HashObject) : List Value := h.entries.map HashEntry.value

/-- Whether two hashes have the same keys with values that are the same by `same`. -/
def sameBy (same : Value → Value → Bool) (a b : HashObject) : Bool :=
  a.size == b.size &&
    a.entries.all fun entry =>
      match b.get? entry.hashKey with
      | some other => same other.value entry.value
      | none => false

end HashObject

end ScriptLang
