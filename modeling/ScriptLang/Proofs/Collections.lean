-- The collections of a heap, what they hold and where they lead. A value reaches the collection
-- that it names, and what the elements and pairs of a collection reach; so it looks the same in
-- two heaps that agree on the collections it reaches.
import Mathlib.Logic.Relation
import ScriptLang.Value.Render

namespace ScriptLang

open Relation

/-- The name of a collection. -/
abbrev Collection := OpenCollection

/-- The collection that a value names. -/
def Value.collection? : Value → Option Collection
  | .array id => some (.array id)
  | .hash id => some (.hash id)
  | _ => none

/-- Keys are no collections. -/
theorem Value.collection?_of_hashable {key : Value} {k : HashKey}
    (hk : HashKey.of? key = some k) : key.collection? = none := by
  cases key with
  | array id => cases hk
  | hash id => cases hk
  | _ => rfl

namespace Heap

/-! ## Contents -/

/-- A collection is there. -/
def Has (h : Heap) : Collection → Prop
  | .array id => id.index < h.arrays.size
  | .hash id => id.index < h.hashes.size

/-- What a collection holds: the elements of an array or the entries of a hash. -/
def contents (h : Heap) : Collection → Array Value ⊕ HashObject
  | .array id => .inl (h.array id)
  | .hash id => .inr (h.hash id)

/-- The elements of an array, or the keys and values of a hash. -/
def valuesOf : Array Value ⊕ HashObject → List Value
  | .inl items => items.toList
  | .inr object => object.entries.flatMap fun e => [e.key, e.value]

/-- The values in a collection. -/
def inside (h : Heap) (c : Collection) : List Value := valuesOf (h.contents c)

@[simp] theorem mem_inside_array {h : Heap} {id : ArrayId} {v : Value} :
    v ∈ h.inside (.array id) ↔ v ∈ (h.array id).toList := Iff.rfl

@[simp] theorem mem_inside_hash {h : Heap} {id : HashId} {v : Value} :
    v ∈ h.inside (.hash id) ↔ ∃ e ∈ (h.hash id).entries, v = e.key ∨ v = e.value := by
  simp [inside, contents, valuesOf]

/-! ## Reaching -/

/-- One collection holds the name of another one. -/
def Contains (h : Heap) (c d : Collection) : Prop := ∃ v ∈ h.inside c, v.collection? = some d

/-- A value leads to a collection through elements and pairs. -/
def Reaches (h : Heap) (v : Value) (d : Collection) : Prop :=
  ∃ c, v.collection? = some c ∧ ReflTransGen h.Contains c d

variable {h h' : Heap} {v w : Value} {c d : Collection}

theorem Reaches.self (hv : v.collection? = some c) : h.Reaches v c := ⟨c, hv, .refl⟩

theorem Reaches.tail (hr : h.Reaches v c) (hc : h.Contains c d) : h.Reaches v d := by
  obtain ⟨first, hv, hpath⟩ := hr
  exact ⟨first, hv, hpath.tail hc⟩

theorem Reaches.head (hv : v.collection? = some c) (hw : w ∈ h.inside c)
    (hr : h.Reaches w d) : h.Reaches v d := by
  obtain ⟨first, hfirst, hpath⟩ := hr
  exact ⟨c, hv, .head ⟨w, hw, hfirst⟩ hpath⟩

/-- What a value leads to is what it names, or what something inside leads to. -/
theorem Reaches.cases (hr : h.Reaches v d) :
    v.collection? = some d ∨
      ∃ c, v.collection? = some c ∧ ∃ w ∈ h.inside c, h.Reaches w d := by
  obtain ⟨c, hv, hpath⟩ := hr
  rcases hpath.cases_head with rfl | ⟨next, ⟨w, hw, hnext⟩, hrest⟩
  · exact Or.inl hv
  · exact Or.inr ⟨c, hv, w, hw, next, hnext, hrest⟩

theorem not_reaches (hv : v.collection? = none) : ¬h.Reaches v d := by
  rintro ⟨c, hc, -⟩
  rw [hv] at hc
  cases hc

/-! ## Agreement -/

/-- Two heaps agree on every collection that a value reaches. -/
def AgreesOn (h h' : Heap) (v : Value) : Prop :=
  ∀ c, h.Reaches v c → h'.contents c = h.contents c

theorem Contains.of_contents (hc : h.Contains c d) (hsame : h'.contents c = h.contents c) :
    h'.Contains c d := by
  unfold Contains inside at *
  rwa [hsame]

namespace AgreesOn

theorem inside (ha : h.AgreesOn h' v) (hv : v.collection? = some c) (hw : w ∈ h.inside c) :
    h.AgreesOn h' w := fun d hr => ha d (.head hv hw hr)

theorem inside_eq (ha : h.AgreesOn h' v) (hv : v.collection? = some c) :
    h'.inside c = h.inside c := by
  unfold Heap.inside
  rw [ha c (.self hv)]

/-- A value leads to the same collections in heaps that agree on them. -/
theorem reaches_iff (ha : h.AgreesOn h' v) : h'.Reaches v d ↔ h.Reaches v d := by
  constructor
  · rintro ⟨c, hv, hpath⟩
    induction hpath with
    | refl => exact .self hv
    | tail _ hstep ih => exact ih.tail (hstep.of_contents (ha _ ih).symm)
  · rintro ⟨c, hv, hpath⟩
    induction hpath with
    | refl => exact .self hv
    | tail hbefore hstep ih => exact ih.tail (hstep.of_contents (ha _ ⟨c, hv, hbefore⟩))

theorem symm (ha : h.AgreesOn h' v) : h'.AgreesOn h v := fun c hr =>
  (ha c (ha.reaches_iff.mp hr)).symm

theorem trans {h'' : Heap} (ha : h.AgreesOn h' v) (hb : h'.AgreesOn h'' v) :
    h.AgreesOn h'' v := fun c hr => (hb c (ha.reaches_iff.mpr hr)).trans (ha c hr)

end AgreesOn

/-! ## More collections -/

/-- All collections that a value reaches are there. -/
def Held (h : Heap) (v : Value) : Prop := ∀ c, h.Reaches v c → h.Has c

/-- A heap has all that another one has, as it was, and maybe more. -/
def Extends (h h' : Heap) : Prop := ∀ c, h.Has c → h'.Has c ∧ h'.contents c = h.contents c

theorem Held.inside (hh : h.Held v) (hv : v.collection? = some c) (hw : w ∈ h.inside c) :
    h.Held w := fun d hr => hh d (.head hv hw hr)

namespace Extends

theorem refl (h : Heap) : h.Extends h := fun _ hc => ⟨hc, rfl⟩

theorem trans {h'' : Heap} (he : h.Extends h') (he' : h'.Extends h'') : h.Extends h'' := by
  intro c hc
  obtain ⟨hc', hsame⟩ := he c hc
  obtain ⟨hc'', hsame'⟩ := he' c hc'
  exact ⟨hc'', hsame'.trans hsame⟩

theorem agreesOn (he : h.Extends h') (hh : h.Held v) : h.AgreesOn h' v := fun c hr =>
  (he c (hh c hr)).2

theorem held (he : h.Extends h') (hh : h.Held v) : h'.Held v := by
  intro c hr
  exact (he c (hh c ((he.agreesOn hh).reaches_iff.mp hr))).1

end Extends

theorem extends_newArray (h : Heap) (items : Array Value) : h.Extends (h.newArray items).2 := by
  intro c hc
  cases c with
  | array id =>
    have hid : id.index < h.arrays.size := hc
    refine ⟨?_, ?_⟩
    · simp only [newArray, Has, Array.size_push]
      omega
    · simp [newArray, contents, array, Array.getD_eq_getD_getElem?, Array.getElem?_push,
        Nat.ne_of_lt hid]
  | hash id => exact ⟨hc, rfl⟩

theorem extends_newHash (h : Heap) (object : HashObject) : h.Extends (h.newHash object).2 := by
  intro c hc
  cases c with
  | array id => exact ⟨hc, rfl⟩
  | hash id =>
    have hid : id.index < h.hashes.size := hc
    refine ⟨?_, ?_⟩
    · simp only [newHash, Has, Array.size_push]
      omega
    · simp [newHash, contents, hash, Array.getD_eq_getD_getElem?, Array.getElem?_push,
        Nat.ne_of_lt hid]

@[simp] theorem array_newArray (h : Heap) (items : Array Value) :
    (h.newArray items).2.array (h.newArray items).1 = items := by
  simp [newArray, array]

@[simp] theorem hash_newHash (h : Heap) (object : HashObject) :
    (h.newHash object).2.hash (h.newHash object).1 = object := by
  simp [newHash, hash]

/-! ## Changed collections -/

theorem array_modifyArray (h : Heap) {id : ArrayId} (hid : h.Has (.array id))
    (f : Array Value → Array Value) : (h.modifyArray id f).array id = f (h.array id) := by
  have hlt : id.index < h.arrays.size := hid
  simp [modifyArray, array, Array.getD, Array.getElem_modify, hlt]

theorem hash_modifyHash (h : Heap) {id : HashId} (hid : h.Has (.hash id))
    (f : HashObject → HashObject) : (h.modifyHash id f).hash id = f (h.hash id) := by
  have hlt : id.index < h.hashes.size := hid
  simp [modifyHash, hash, Array.getD, Array.getElem_modify, hlt]

end Heap

end ScriptLang
