-- Writing and deleting one element. An edit that fails leaves everything as it was when its
-- operands had been evaluated. One that does not changes the array or the hash that it names, and
-- there only the element, apart from the elements that move down behind a deleted one.
import ScriptLang.Proofs.Apart
import ScriptLang.Proofs.CompoundAssignment

namespace ScriptLang

open Eval

namespace Heap

/-! ## Elements -/

/-- A value is the number of a place in an array. -/
def IsSlot (key : Value) (slot : Nat) : Prop := ∃ i, key = .integer i ∧ i.toInt = slot

/-- A collection has a place to write to: one of an array up to its length, or any key of a
hash. -/
def Writable (h : Heap) (key : Value) : Value → Prop
  | .array id => ∃ slot, IsSlot key slot ∧ slot ≤ (h.array id).size
  | .hash _ => (HashKey.of? key).isSome = true
  | _ => False

/-- A collection has an element to delete. A hash need not have the key. -/
def Erasable (h : Heap) (key : Value) : Value → Prop
  | .array id => ∃ slot, IsSlot key slot ∧ slot < (h.array id).size
  | .hash _ => (HashKey.of? key).isSome = true
  | _ => False

/-- What a collection is after a write. An element behind the last one of an array is a new one; a
new key of a hash comes last, and one that is there keeps its place. -/
def Written (h h' : Heap) (key value : Value) : Value → Prop
  | .array id => ∃ slot, IsSlot key slot ∧
    ∀ j : Nat, (h'.array id)[j]? = if j = slot then some value else (h.array id)[j]?
  | .hash id => ∃ k, HashKey.of? key = some k ∧
    (∀ k', (h'.hash id).get? k' = if k = k' then some ⟨k, key, value⟩ else (h.hash id).get? k') ∧
    (h'.hash id).hashKeys =
      if k ∈ (h.hash id).hashKeys then (h.hash id).hashKeys else (h.hash id).hashKeys ++ [k]
  | _ => False

/-- What a collection is after a deletion. The elements of an array behind the deleted one have
moved down; the other keys of a hash are in their order. -/
def Erased (h h' : Heap) (key : Value) : Value → Prop
  | .array id => ∃ slot, IsSlot key slot ∧
    ∀ j : Nat, (h'.array id)[j]? = if j < slot then (h.array id)[j]? else (h.array id)[j + 1]?
  | .hash id => ∃ k, HashKey.of? key = some k ∧
    (∀ k', (h'.hash id).get? k' = if k = k' then none else (h.hash id).get? k') ∧
    (h'.hash id).hashKeys = (h.hash id).hashKeys.filter fun k' => k' ≠ k
  | _ => False

variable {h h' : Heap} {key value container : Value} {slot : Nat}

theorem toIndex?_eq_some {i : Int64} : Integer.toIndex? i = some slot ↔ i.toInt = slot := by
  unfold Integer.toIndex?
  split
  · rw [Option.some_inj]
    omega
  · simp only [false_iff, reduceCtorEq]
    omega

theorem IsSlot.unique {slot' : Nat} (hs : IsSlot key slot) (hs' : IsSlot key slot') :
    slot = slot' := by
  obtain ⟨i, rfl, hi⟩ := hs
  obtain ⟨i', heq, hi'⟩ := hs'
  cases heq
  omega

/-- What has been written is read. -/
theorem Written.index (hw : h.Written h' key value container) : h'.index container key = value := by
  cases container with
  | array id =>
    obtain ⟨slot, ⟨i, rfl, hi⟩, hat⟩ := hw
    simp [Heap.index, toIndex?_eq_some.mpr hi, hat]
  | hash id =>
    obtain ⟨k, hk, hget, -⟩ := hw
    simp [Heap.index, hk, hget]
  | _ => cases hw

/-! ## Edits of the heap -/

/-- What comes of an edit of one element: it is not possible, and the heap is as it was, or it is
possible and the heap has changed. -/
inductive Edited (h : Heap) (Possible : Prop) (Change : Heap → Prop) :
    EStateM.Result Fault Heap Unit → Prop
  | failed {f : Fault} (hn : ¬Possible) : Edited h Possible Change (.error f h)
  | done {h' : Heap} (hp : Possible) (hchange : Change h') : Edited h Possible Change (.ok () h')

theorem write_array (h : Heap) (id : ArrayId) (i : Int64) (value : Value) :
    write (.array id) (.integer i) value h = match Integer.toIndex? i with
      | some slot =>
        if slot < (h.array id).size then .ok () (h.modifyArray id (·.setIfInBounds slot value))
        else if slot = (h.array id).size then .ok () (h.modifyArray id (·.push value))
        else .error (.indexOutOfRange i (h.array id).size) h
      | none => .error (.indexOutOfRange i (h.array id).size) h := by
  cases hslot : Integer.toIndex? i with
  | none =>
    simp only [write, hslot]
    rfl
  | some slot =>
    simp only [write, hslot]
    change (if slot < (h.array id).size then _ else if slot = (h.array id).size then _ else _ :
      HeapOp Unit) h = _
    split
    · rfl
    · split <;> rfl

theorem delete_array (h : Heap) (id : ArrayId) (i : Int64) :
    delete (.array id) (.integer i) h = match Integer.toIndex? i with
      | some slot =>
        if slot < (h.array id).size then .ok () (h.modifyArray id (·.eraseIdxIfInBounds slot))
        else .error (.indexOutOfRange i (h.array id).size) h
      | none => .error (.indexOutOfRange i (h.array id).size) h := by
  cases hslot : Integer.toIndex? i with
  | none =>
    simp only [delete, hslot]
    rfl
  | some slot =>
    simp only [delete, hslot]
    change (if slot < (h.array id).size then _ else _ : HeapOp Unit) h = _
    split <;> rfl

theorem not_isSlot {i : Int64} (hi : Integer.toIndex? i = none) : ¬IsSlot (.integer i) slot := by
  rintro ⟨i', ⟨⟩, hslot⟩
  rw [toIndex?_eq_some.mpr hslot] at hi
  cases hi

theorem edited_write_array (h : Heap) {id : ArrayId} (hid : h.Has (.array id))
    (key value : Value) :
    Edited h (h.Writable key (.array id)) (fun h' => h.Written h' key value (.array id))
      (write (.array id) key value h) := by
  cases key with
  | integer i =>
    rw [write_array]
    split
    · rename_i slot hslot
      have hkey : IsSlot (.integer i) slot := ⟨i, rfl, toIndex?_eq_some.mp hslot⟩
      split
      · rename_i hlt
        refine .done ⟨slot, hkey, Nat.le_of_lt hlt⟩ ⟨slot, hkey, fun j => ?_⟩
        rw [array_modifyArray h hid, Array.getElem?_setIfInBounds]
        by_cases hj : slot = j
        · simp [hj, hj ▸ hlt]
        · simp [hj, Ne.symm hj]
      · split
        · rename_i heq
          refine .done ⟨slot, hkey, Nat.le_of_eq heq⟩ ⟨slot, hkey, fun j => ?_⟩
          rw [array_modifyArray h hid, Array.getElem?_push, heq]
        · refine .failed ?_
          rintro ⟨slot', hkey', hle⟩
          have hsame := hkey.unique hkey'
          omega
    · rename_i hnone
      exact .failed fun ⟨_, hkey, _⟩ => not_isSlot hnone hkey
  | _ => exact .failed (by rintro ⟨slot, ⟨i, ⟨⟩, -⟩, -⟩)

theorem edited_delete_array (h : Heap) {id : ArrayId} (hid : h.Has (.array id)) (key : Value) :
    Edited h (h.Erasable key (.array id)) (fun h' => h.Erased h' key (.array id))
      (delete (.array id) key h) := by
  cases key with
  | integer i =>
    rw [delete_array]
    split
    · rename_i slot hslot
      have hkey : IsSlot (.integer i) slot := ⟨i, rfl, toIndex?_eq_some.mp hslot⟩
      split
      · rename_i hlt
        refine .done ⟨slot, hkey, hlt⟩ ⟨slot, hkey, fun j => ?_⟩
        rw [array_modifyArray h hid, Array.eraseIdxIfInBounds, dif_pos hlt, Array.getElem?_eraseIdx]
      · refine .failed ?_
        rintro ⟨slot', hkey', hlt⟩
        have hsame := hkey.unique hkey'
        omega
    · rename_i hnone
      exact .failed fun ⟨_, hkey, _⟩ => not_isSlot hnone hkey
  | _ => exact .failed (by rintro ⟨slot, ⟨i, ⟨⟩, -⟩, -⟩)

theorem edited_write (h : Heap) (container key value : Value)
    (hheld : ∀ c, container.collection? = some c → h.Has c) :
    Edited h (h.Writable key container) (fun h' => h.Written h' key value container)
      (write container key value h) := by
  cases container with
  | array id => exact edited_write_array h (hheld _ rfl) key value
  | hash id =>
    cases hk : HashKey.of? key with
    | none =>
      rw [(h.unchanged_of_unhashable id hk .empty value).1]
      exact .failed (by simp [Writable, hk])
    | some k =>
      have hwrite : write (.hash id) key value h =
          .ok () (h.modifyHash id (·.insert key value)) := by
        simp only [write, hk]
        rfl
      rw [hwrite]
      refine .done (by simp [Writable, hk]) ⟨k, hk, fun k' => ?_, ?_⟩
      · rw [hash_modifyHash h (hheld _ rfl), HashObject.get?_insert hk]
      · rw [hash_modifyHash h (hheld _ rfl), HashObject.hashKeys_insert hk]
  | _ => exact .failed id

theorem edited_delete (h : Heap) (container key : Value)
    (hheld : ∀ c, container.collection? = some c → h.Has c) :
    Edited h (h.Erasable key container) (fun h' => h.Erased h' key container)
      (delete container key h) := by
  cases container with
  | array id => exact edited_delete_array h (hheld _ rfl) key
  | hash id =>
    cases hk : HashKey.of? key with
    | none =>
      rw [(h.unchanged_of_unhashable id hk .empty .null).2.1]
      exact .failed (by simp [Erasable, hk])
    | some k =>
      have hdelete : delete (.hash id) key h = .ok () (h.modifyHash id (·.erase k)) := by
        simp only [delete, hk]
        rfl
      rw [hdelete]
      refine .done (by simp [Erasable, hk]) ⟨k, hk, fun k' => ?_, ?_⟩
      · rw [hash_modifyHash h (hheld _ rfl), HashObject.get?_erase]
      · rw [hash_modifyHash h (hheld _ rfl), HashObject.hashKeys_erase]
  | _ => exact .failed id

theorem Writable.collection (hw : h.Writable key container) :
    ∃ c, container.collection? = some c := by
  cases container with
  | array id => exact ⟨_, rfl⟩
  | hash id => exact ⟨_, rfl⟩
  | _ => cases hw

/-- What can be deleted can be written. -/
theorem Erasable.writable (he : h.Erasable key container) : h.Writable key container := by
  cases container with
  | array id =>
    obtain ⟨slot, hkey, hlt⟩ := he
    exact ⟨slot, hkey, Nat.le_of_lt hlt⟩
  | hash id => exact he
  | _ => cases he

end Heap

/-! ## Edits of a running program -/

theorem Value.eq_error_of_isError {v : Value} (h : v.isError = true) : ∃ f, v = .error f := by
  cases v with
  | error f => exact ⟨f, rfl⟩
  | _ => cases h

namespace Eval

/-- What comes of an edit of one element of `container` in the state `s`. It is not possible, the
result is an error and the state is as it was; or it is possible and gives `result`, and in the new
state the collection that `container` names has changed and nothing else has. -/
inductive EditOutcome (s : Machine) (container result : Value) (stored : List Value)
    (Possible : Prop) (Change : Heap → Prop) : EStateM.Result Stop Machine Value → Prop
  | failed (f : Fault) (hn : ¬Possible) :
      EditOutcome s container result stored Possible Change (.ok (.error f) s)
  | done {h : Heap} {c : Collection} (hp : Possible) (hc : container.collection? = some c)
      (ht : Heap.Touches c stored s.store.heap h) (hchange : Change h) :
      EditOutcome s container result stored Possible Change (.ok result (s.withHeap h))

theorem onHeap_run (op : HeapOp Unit) (result : Value) (s : Machine) :
    onHeap (do op; return result) s = match op s.store.heap with
      | .ok _ h => .ok result (s.withHeap h)
      | .error f h => .ok (.error f) (s.withHeap h) := by
  obtain ⟨⟨heap, scopes, definitions⟩, scope, depth, imports, sink, inputs⟩ := s
  have hrun : (do op; return result : HeapOp Value) heap = match op heap with
      | .ok _ h => .ok result h
      | .error f h => .error f h := by
    change EStateM.bind op (fun _ => pure result) heap = _
    unfold EStateM.bind
    cases op heap <;> rfl
  unfold onHeap Store.onHeap
  dsimp only
  rw [hrun]
  cases op heap <;> rfl

variable {s : Machine} {container key value : Value}

/-- An edit of the heap as a step of a program: a fault becomes an error. -/
theorem outcome_of_edited (change : Change) {op : HeapOp Unit} {Possible : Prop}
    {Edit : Heap → Prop}
    (hperform : change.perform s.store.definitions container s.store.heap =
      Heap.left (op s.store.heap))
    (hcollection : Possible → ∃ c, container.collection? = some c)
    (hedited : Heap.Edited s.store.heap Possible Edit (op s.store.heap)) (result : Value) :
    EditOutcome s container result change.stored Possible Edit
      (onHeap (do op; return result) s) := by
  rw [onHeap_run]
  generalize op s.store.heap = r at hedited hperform
  cases hedited with
  | failed hn => exact .failed _ hn
  | done hp hchange =>
    obtain ⟨c, hc⟩ := hcollection hp
    have htouches := change.touches s.store.definitions hc s.store.heap
    rw [hperform] at htouches
    exact .done hp hc htouches hchange

theorem outcome_writeElement (key value : Value)
    (hheld : ∀ c, container.collection? = some c → s.store.heap.Has c) :
    EditOutcome s container value [value] (s.store.heap.Writable key container)
      (fun h => s.store.heap.Written h key value container)
      (writeElement container key value s) :=
  outcome_of_edited (.write key value) rfl (·.collection)
    (Heap.edited_write s.store.heap container key value hheld) value

theorem outcome_eraseElement (key : Value)
    (hheld : ∀ c, container.collection? = some c → s.store.heap.Has c) :
    EditOutcome s container .null [] (s.store.heap.Erasable key container)
      (fun h => s.store.heap.Erased h key container) (eraseElement container key s) :=
  outcome_of_edited (.delete key) rfl (·.writable.collection)
    (Heap.edited_delete s.store.heap container key hheld) .null

/-- The value that an assignment to an element stores: the right side, or its combination with the
element. It is an error if the element cannot be read or the two cannot be combined. -/
def storedValue (h : Heap) (container key : Value) (op : Option BinaryOp) (value : Value) : Value :=
  match op with
  | none => value
  | some op =>
    let current := h.index container key
    if current.isError then current else Operation.binary h op current value

/-- The operands of an assignment to an element are evaluated one after the other. -/
theorem assignElement_run {eval : EvalExpr Eval} {left index right : Expr} {m m₁ m₂ : Machine}
    (hc : eval left m = .ok container m₁) (hcplain : container.isSignal = false)
    (hk : eval index m₁ = .ok key m₂) (hkplain : key.isSignal = false)
    (hv : eval right m₂ = .ok value s) (hvplain : value.isSignal = false)
    (op : Option BinaryOp) :
    (assignElement eval left index op right : Eval Value) m =
      let stored := storedValue s.store.heap container key op value
      if stored.isError then .ok stored s else writeElement container key stored s := by
  unfold assignElement
  rw [andThen_of_plain hc hcplain, andThen_of_plain hk hkplain, andThen_of_plain hv hvplain]
  cases op with
  | none =>
    dsimp only [storedValue]
    rw [Value.isError_eq_false hvplain]
    rfl
  | some op =>
    have hread : (liftM (readElement container key) : Eval Value) s =
        .ok (s.store.heap.index container key) s := rfl
    dsimp only [storedValue]
    rw [bind_run, hread]
    dsimp only
    cases hcurrent : (s.store.heap.index container key).isError with
    | true =>
      simp only [hcurrent, if_true]
      rfl
    | false =>
      have hrun : (operate op (s.store.heap.index container key) value : Eval Value) s =
          .ok (Operation.binary s.store.heap op (s.store.heap.index container key) value) s := rfl
      simp only [Bool.false_eq_true, if_false]
      rw [bind_run, hrun]
      dsimp only
      split <;> rfl

/-- An assignment to an element stores a value, or is not possible. -/
theorem outcome_assignElement {eval : EvalExpr Eval} {left index right : Expr}
    {m m₁ m₂ : Machine} (hc : eval left m = .ok container m₁)
    (hcplain : container.isSignal = false) (hk : eval index m₁ = .ok key m₂)
    (hkplain : key.isSignal = false) (hv : eval right m₂ = .ok value s)
    (hvplain : value.isSignal = false) (op : Option BinaryOp)
    (hheld : ∀ c, container.collection? = some c → s.store.heap.Has c) :
    let stored := storedValue s.store.heap container key op value
    EditOutcome s container stored [stored]
      (stored.isError = false ∧ s.store.heap.Writable key container)
      (fun h => s.store.heap.Written h key stored container ∧ h.index container key = stored)
      ((assignElement eval left index op right : Eval Value) m) := by
  intro stored
  rw [assignElement_run hc hcplain hk hkplain hv hvplain]
  dsimp only
  change EditOutcome _ _ _ _ _ _ (if stored.isError = true then .ok stored s else _)
  cases hstored : stored.isError with
  | true =>
    obtain ⟨f, hf⟩ := Value.eq_error_of_isError hstored
    have hfailed : EditOutcome s container stored [stored]
        (true = false ∧ s.store.heap.Writable key container)
        (fun h => s.store.heap.Written h key stored container ∧ h.index container key = stored)
        (.ok (.error f) s) := .failed f (by simp)
    rwa [← hf] at hfailed
  | false =>
    have hwrite := outcome_writeElement key stored hheld
    rw [if_neg Bool.false_ne_true]
    generalize writeElement container key stored s = r at hwrite
    cases hwrite with
    | failed f hn => exact .failed f fun h => hn h.2
    | done hp hc ht hchange => exact .done ⟨rfl, hp⟩ hc ht ⟨hchange, hchange.index⟩

/-- Writing and deleting an element is atomic and local. Let `s` be the state when the operands have
been evaluated to ordinary values, and let the container be there. An edit that gives an error
leaves that very state. Any other one changes the one collection that the container names, as
`Written` and `Erased` say, gives the value that it stored, which is read there from then on, or
`null`, and leaves all other collections, the scopes, the output and the rest as they are. -/
theorem element_edits_are_local (host : Host) (fuel : Nat) (left index : Expr) (p q : Position)
    {m m₁ m₂ : Machine} {container key : Value}
    (hc : (expr host fuel left : Eval Value) m = .ok container m₁)
    (hcplain : container.isSignal = false)
    (hk : (expr host fuel index : Eval Value) m₁ = .ok key m₂)
    (hkplain : key.isSignal = false) :
    (∀ (op : Option BinaryOp) (right : Expr) (value : Value) (s : Machine),
      (expr host fuel right : Eval Value) m₂ = .ok value s → value.isSignal = false →
      (∀ c, container.collection? = some c → s.store.heap.Has c) →
      let stored := storedValue s.store.heap container key op value
      let run := (statement (expr host fuel) (.assignment (.index left index p) op right q) :
        Eval Value) m
      (expr host (fuel + 1) (.assign (.index left index p) op right q) : Eval Value) m = run ∧
        EditOutcome s container stored [stored]
          (stored.isError = false ∧ s.store.heap.Writable key container)
          (fun h => s.store.heap.Written h key stored container ∧ h.index container key = stored)
          run) ∧
    (∀ name p', left = .identifier name p' →
      (∀ c, container.collection? = some c → m₂.store.heap.Has c) →
      EditOutcome m₂ container .null [] (m₂.store.heap.Erasable key container)
        (fun h => m₂.store.heap.Erased h key container)
        ((statement (expr host fuel) (.delete (.index left index p) q) : Eval Value) m)) := by
  constructor
  · intro op right value s hv hvplain hheld stored run
    refine ⟨by rw [expr_succ]; rfl, ?_⟩
    exact outcome_assignElement hc hcplain hk hkplain hv hvplain op hheld
  · rintro name p' rfl hheld
    have hrun : (statement (expr host fuel) (.delete (.index (.identifier name p') index p) q) :
        Eval Value) m = eraseElement container key m₂ := by
      change andThen (expr host fuel (.identifier name p'))
        (fun c => andThen (expr host fuel index) fun k => eraseElement c k) m = _
      rw [andThen_of_plain hc hcplain, andThen_of_plain hk hkplain]
    rw [hrun]
    exact outcome_eraseElement key hheld

/-- With `[1]` in `a` and `0` in `i`, `a[i] += 2` stores `3`, and `delete a[i]` leaves no
element. -/
theorem element_of_state_edited :
    let a : Expr := .identifier "a" .start
    let i : Expr := .identifier "i" .start
    let sum : Statement :=
      .assignment (.index a i .start) (some .add) (.integer 2 .start) .start
    let deletion : Statement := .delete (.index a i .start) .start
    (expr Host.plain 2 a : Eval Value) withElement = .ok (.array ⟨0⟩) withElement ∧
      (expr Host.plain 2 i : Eval Value) withElement = .ok (.integer 0) withElement ∧
      (∃ h, (statement (expr Host.plain 2) sum : Eval Value) withElement =
          .ok (.integer 3) (withElement.withHeap h) ∧
        h.index (.array ⟨0⟩) (.integer 0) = .integer 3) ∧
      ∃ h, (statement (expr Host.plain 2) deletion : Eval Value) withElement =
          .ok .null (withElement.withHeap h) ∧ (h.array ⟨0⟩)[0]? = none := by
  intro a i sum deletion
  have ha : (expr Host.plain 2 a : Eval Value) withElement = .ok (.array ⟨0⟩) withElement := rfl
  have hi : (expr Host.plain 2 i : Eval Value) withElement = .ok (.integer 0) withElement := rfl
  have hslot : Heap.IsSlot (.integer 0) 0 := ⟨0, rfl, rfl⟩
  have hheld (c : Collection) (hc : (Value.array ⟨0⟩).collection? = some c) :
      withElement.store.heap.Has c := by
    cases hc
    exact Nat.zero_lt_one
  obtain ⟨hwrites, hdeletes⟩ :=
    element_edits_are_local Host.plain 2 a i .start .start ha rfl hi rfl
  obtain ⟨-, hsum⟩ := hwrites (some .add) (.integer 2 .start) (.integer 2) withElement rfl rfl hheld
  have hdeletion := hdeletes "a" .start rfl hheld
  refine ⟨ha, hi, ?_, ?_⟩
  · generalize (statement (expr Host.plain 2) sum : Eval Value) withElement = r at hsum
    cases hsum with
    | failed f hn => exact absurd ⟨rfl, 0, hslot, Nat.zero_le _⟩ hn
    | done _ _ _ hchange => exact ⟨_, rfl, hchange.2⟩
  · generalize (statement (expr Host.plain 2) deletion : Eval Value) withElement = r at hdeletion
    cases hdeletion with
    | failed f hn => exact absurd ⟨0, hslot, Nat.zero_lt_one⟩ hn
    | done _ _ _ hchange =>
      obtain ⟨slot, hkey, hat⟩ := hchange
      refine ⟨_, rfl, ?_⟩
      rw [hat, ← hslot.unique hkey]
      rfl

end Eval

end ScriptLang
