-- Values that share no collection. What a program changes through one of them, it changes in
-- collections that the other does not reach, so the other looks as it did; and if only values are
-- stored that share nothing with the other either, the two stay apart.
import ScriptLang.Proofs.Collections
import ScriptLang.Proofs.HashLaws

namespace ScriptLang

open Relation

/-- A change that a program can make of a collection it has. -/
inductive Change where
  | write (key value : Value)
  | delete (key : Value)
  | push (value : Value)
  | pop
  | remove (key : Value)

namespace Change

/-- The values that a change puts into a collection, apart from keys. -/
def stored : Change → List Value
  | write _ value => [value]
  | push value => [value]
  | delete _ | pop | remove _ => []

/-- The collections after a change. One that fails leaves them as they are. -/
def perform (d : Definitions) (container : Value) : Change → Heap → Heap
  | write key value, h => Heap.left (Heap.write container key value h)
  | delete key, h => Heap.left (Heap.delete container key h)
  | push value, h => Heap.left (Method.call d container "push" [value] h)
  | pop, h => Heap.left (Method.call d container "pop" [] h)
  | remove key, h => Heap.left (Method.call d container "remove" [key] h)

end Change

namespace Heap

variable {h h' : Heap} {v w root other : Value} {c d : Collection} {stored : List Value}

/-! ## What a change touches -/

/-- Only one collection is different, and no other names came in but those that were stored. -/
structure Touches (c : Collection) (stored : List Value) (h h' : Heap) : Prop where
  has : ∀ d, h'.Has d ↔ h.Has d
  others : ∀ d, d ≠ c → h'.contents d = h.contents d
  inside : ∀ v ∈ h'.inside c, v ∈ h.inside c ∨ v ∈ stored ∨ v.collection? = none

theorem Touches.of_steps (hs : ReflTransGen (Touches c stored) h h') : Touches c stored h h' := by
  induction hs with
  | refl => exact ⟨fun _ => Iff.rfl, fun _ _ => rfl, fun _ hv => Or.inl hv⟩
  | tail _ hstep ih =>
    refine ⟨fun d => (hstep.has d).trans (ih.has d), ?_, ?_⟩
    · intro d hd
      exact (hstep.others d hd).trans (ih.others d hd)
    · intro v hv
      rcases hstep.inside v hv with hbefore | hnew
      · exact ih.inside v hbefore
      · exact Or.inr hnew

theorem touches_modifyArray (h : Heap) (id : ArrayId) {f : Array Value → Array Value}
    (hf : ∀ items, ∀ v ∈ f items, v ∈ items ∨ v ∈ stored) :
    Touches (.array id) stored h (h.modifyArray id f) := by
  refine ⟨?_, ?_, ?_⟩
  · intro d
    cases d with
    | array id' => simp [modifyArray, Has]
    | hash id' => rfl
  · intro d hd
    cases d with
    | array id' =>
      have hne : id.index ≠ id'.index := by
        intro heq
        apply hd
        rw [show id' = id from congrArg ArrayId.mk heq.symm]
      simp [modifyArray, contents, array, Array.getD_eq_getD_getElem?, Array.getElem?_modify, hne]
    | hash id' => rfl
  · intro v hv
    rw [mem_inside_array, Array.mem_toList_iff] at hv ⊢
    by_cases hid : h.Has (.array id)
    · rw [array_modifyArray h hid] at hv
      exact (hf _ v hv).imp_right Or.inl
    · have hge : ¬id.index < h.arrays.size := hid
      simp [modifyArray, array, Array.getD, hge] at hv

theorem touches_modifyHash (h : Heap) (id : HashId) {f : HashObject → HashObject}
    (hf : ∀ object, ∀ e ∈ (f object).entries, e ∈ object.entries ∨
      e.key.collection? = none ∧ e.value ∈ stored) :
    Touches (.hash id) stored h (h.modifyHash id f) := by
  refine ⟨?_, ?_, ?_⟩
  · intro d
    cases d with
    | array id' => rfl
    | hash id' => simp [modifyHash, Has]
  · intro d hd
    cases d with
    | array id' => rfl
    | hash id' =>
      have hne : id.index ≠ id'.index := by
        intro heq
        apply hd
        rw [show id' = id from congrArg HashId.mk heq.symm]
      simp [modifyHash, contents, hash, Array.getD_eq_getD_getElem?, Array.getElem?_modify, hne]
  · intro v hv
    rw [mem_inside_hash] at hv ⊢
    obtain ⟨e, he, hv⟩ := hv
    by_cases hid : h.Has (.hash id)
    · rw [hash_modifyHash h hid] at he
      rcases hf _ e he with hold | ⟨hkey, hvalue⟩
      · exact Or.inl ⟨e, hold, hv⟩
      · rcases hv with rfl | rfl
        · exact Or.inr (Or.inr hkey)
        · exact Or.inr (Or.inl hvalue)
    · have hge : ¬id.index < h.hashes.size := hid
      simp [modifyHash, hash, Array.getD, hge, HashObject.empty] at he

end Heap

/-! ## One change -/

namespace Change

open Heap

variable {h h' : Heap} {stored : List Value}

theorem insert_stored (object : HashObject) (key value : Value) :
    ∀ e ∈ (object.insert key value).entries,
      e ∈ object.entries ∨ e.key.collection? = none ∧ e.value ∈ [value] := by
  intro e he
  cases hk : HashKey.of? key with
  | none =>
    rw [(HashObject.insert_of_unhashable hk value).2] at he
    exact Or.inl he
  | some k =>
    rw [HashObject.insert_of_hashable hk] at he
    rcases HashObject.mem_put he with rfl | hold
    · exact Or.inr ⟨Value.collection?_of_hashable hk, List.mem_singleton.mpr rfl⟩
    · exact Or.inl hold

theorem erase_stored (object : HashObject) (k : HashKey) :
    ∀ e ∈ (object.erase k).entries,
      e ∈ object.entries ∨ e.key.collection? = none ∧ e.value ∈ stored :=
  fun _ he => Or.inl (List.mem_filter.mp he).1

theorem moves_write_array (id : ArrayId) (key value : Value) :
    Moves (Touches (.array id) [value]) (Heap.write (.array id) key value) := by
  unfold Heap.write
  cases key with
  | integer i =>
    refine .bind .get fun heap => ?_
    dsimp only
    split
    · split
      · refine .modify fun h => touches_modifyArray h id fun items v hv => ?_
        rcases Array.mem_or_eq_of_mem_setIfInBounds hv with hold | rfl
        · exact Or.inl hold
        · exact Or.inr (by simp)
      · split
        · refine .modify fun h => touches_modifyArray h id fun items v hv => ?_
          rcases Array.mem_push.mp hv with hold | rfl
          · exact Or.inl hold
          · exact Or.inr (by simp)
        · exact .throw _
    · exact .throw _
  | _ => exact .throw _

theorem moves_delete_array (id : ArrayId) (key : Value) :
    Moves (Touches (.array id) []) (Heap.delete (.array id) key) := by
  unfold Heap.delete
  cases key with
  | integer i =>
    refine .bind .get fun heap => ?_
    dsimp only
    split
    · split
      · refine .modify fun h => touches_modifyArray h id fun items v hv => ?_
        unfold Array.eraseIdxIfInBounds at hv
        split at hv
        · exact Or.inl (Array.mem_of_mem_eraseIdx hv)
        · exact Or.inl hv
      · exact .throw _
    · exact .throw _
  | _ => exact .throw _

/-- What writing, deleting and removing do to a hash, if the key is one. -/
theorem steps_hash (d : Definitions) (id : HashId) {change : Change} {key : Value}
    (edit : HashKey → HashChange)
    (hnone : HashKey.of? key = none → change.perform d (.hash id) h = h)
    (hsome : ∀ k, HashKey.of? key = some k →
      change.perform d (.hash id) h = h.modifyHash id (edit k).apply)
    (hf : ∀ k object, ∀ e ∈ ((edit k).apply object).entries,
      e ∈ object.entries ∨ e.key.collection? = none ∧ e.value ∈ change.stored) :
    ReflTransGen (Touches (.hash id) change.stored) h (change.perform d (.hash id) h) := by
  cases hk : HashKey.of? key with
  | none =>
    rw [hnone hk]
  | some k =>
    rw [hsome k hk]
    exact .single (touches_modifyHash h id (hf k))

/-- A change touches the collection it is made of, and no other. -/
theorem touches (d : Definitions) (change : Change) {container : Value} {c : Collection}
    (hc : container.collection? = some c) (h : Heap) :
    Touches c change.stored h (change.perform d container h) := by
  apply Touches.of_steps
  cases container with
  | array id =>
    cases hc
    cases change with
    | write key value => exact moves_write_array id key value h
    | delete key => exact moves_delete_array id key h
    | push value =>
      refine .single (touches_modifyArray h id fun items v hv => ?_)
      rcases Array.mem_push.mp hv with hold | rfl
      · exact Or.inl hold
      · exact Or.inr (by simp [stored])
    | pop =>
      refine .single (touches_modifyArray h id fun items v hv => Or.inl ?_)
      rw [← Array.mem_toList_iff, Array.toList_pop] at hv
      exact Array.mem_toList_iff.mp (List.dropLast_subset _ hv)
    | remove key => exact .refl
  | hash id =>
    cases hc
    cases change with
    | write key value =>
      exact steps_hash d id (fun _ => .insert key value)
        (fun hk => congrArg left (h.unchanged_of_unhashable id hk d value).1)
        (fun _ hk => h.write_hash id hk value) fun _ object => insert_stored object key value
    | delete key =>
      exact steps_hash d id .remove
        (fun hk => congrArg left (h.unchanged_of_unhashable id hk d .null).2.1)
        (fun _ hk => h.delete_hash id hk) fun k object => erase_stored object k
    | push value => exact .refl
    | pop => exact .refl
    | remove key =>
      exact steps_hash d id .remove
        (fun hk => congrArg left (h.unchanged_of_unhashable id hk d .null).2.2)
        (fun _ hk => h.remove_hash id hk d) fun k object => erase_stored object k
  | _ => cases hc

end Change

/-! ## Staying apart -/

namespace Heap

variable {h h' : Heap} {v w root other : Value} {c : Collection} {stored : List Value}

/-- Two values reach no collection in common. -/
def Apart (h : Heap) (v w : Value) : Prop := ∀ c, h.Reaches v c → ¬h.Reaches w c

theorem Apart.symm (ha : h.Apart v w) : h.Apart w v := fun c hw hv => ha c hv hw

theorem Apart.agreesOn (ha : h.Apart v w) (hv : h.AgreesOn h' v) (hw : h.AgreesOn h' w) :
    h'.Apart v w := by
  intro c hv' hw'
  exact ha c (hv.reaches_iff.mp hv') (hw.reaches_iff.mp hw')

/-- Two values of a program that reach no collection in common. -/
structure Separate (h : Heap) (root other : Value) : Prop where
  heldRoot : h.Held root
  heldOther : h.Held other
  apart : h.Apart root other

theorem Separate.symm (hs : h.Separate root other) : h.Separate other root :=
  ⟨hs.heldOther, hs.heldRoot, hs.apart.symm⟩

/-- A later step of a program: it makes a collection, or changes one that it comes to through the
root. What it stores shares nothing with the other value, or else steps through the root would be
steps through the other value, too. -/
inductive Later (root other : Value) : Heap → Heap → Prop
  | newArray (h : Heap) (items : Array Value) : Later root other h (h.newArray items).2
  | newHash (h : Heap) (object : HashObject) : Later root other h (h.newHash object).2
  | change {h : Heap} {container : Value} {c : Collection} (d : Definitions) (change : Change)
      (hc : container.collection? = some c) (hroot : h.Reaches root c)
      (hstored : ∀ v ∈ change.stored, h.Held v ∧ h.Apart v other) :
      Later root other h (change.perform d container h)

theorem Touches.agreesOn (ht : Touches c stored h h') (hother : ¬h.Reaches other c) :
    h.AgreesOn h' other := by
  intro d hd
  apply ht.others
  rintro rfl
  exact hother hd

/-- Through a collection that was changed, a value leads to what it led to before and to what the
stored values lead to. -/
theorem Touches.reaches (ht : Touches c stored h h') (hroot : h.Reaches root c) {d : Collection}
    (hd : h'.Reaches root d) : h.Reaches root d ∨ ∃ v ∈ stored, h.Reaches v d := by
  obtain ⟨first, hfirst, hpath⟩ := hd
  induction hpath with
  | refl => exact Or.inl (.self hfirst)
  | @tail b d _ hstep ih =>
    by_cases hb : b = c
    · -- The step starts in the collection that was changed.
      subst hb
      obtain ⟨w, hw, hwd⟩ := hstep
      rcases ht.inside w hw with hold | hnew | hnone
      · exact Or.inl (hroot.tail ⟨w, hold, hwd⟩)
      · exact Or.inr ⟨w, hnew, .self hwd⟩
      · rw [hnone] at hwd
        cases hwd
    · have hstep' : h.Contains b d := hstep.of_contents (ht.others b hb).symm
      rcases ih with hreach | ⟨v, hv, hreach⟩
      · exact Or.inl (hreach.tail hstep')
      · exact Or.inr ⟨v, hv, hreach.tail hstep'⟩

/-- A later step is not seen through the other value, and the two stay apart. -/
theorem Later.separate (hl : Later root other h h') (hs : h.Separate root other) :
    h.AgreesOn h' other ∧ h'.Separate root other := by
  have hextends : h.Extends h' → h.AgreesOn h' other ∧ h'.Separate root other := fun he =>
    ⟨he.agreesOn hs.heldOther, he.held hs.heldRoot, he.held hs.heldOther,
      hs.apart.agreesOn (he.agreesOn hs.heldRoot) (he.agreesOn hs.heldOther)⟩
  cases hl with
  | newArray items => exact hextends (h.extends_newArray items)
  | newHash object => exact hextends (h.extends_newHash object)
  | change d change hc hroot hstored =>
    have ht := change.touches d hc h
    have hagrees := ht.agreesOn (hs.apart _ hroot)
    refine ⟨hagrees, ?_, ?_, ?_⟩
    · intro e he
      rw [ht.has]
      rcases ht.reaches hroot he with hold | ⟨v, hv, hnew⟩
      · exact hs.heldRoot e hold
      · exact (hstored v hv).1 e hnew
    · intro e he
      rw [ht.has]
      exact hs.heldOther e (hagrees.reaches_iff.mp he)
    · intro e he hother
      rw [hagrees.reaches_iff] at hother
      rcases ht.reaches hroot he with hold | ⟨v, hv, hnew⟩
      · exact hs.apart e hold hother
      · exact (hstored v hv).2 e hnew hother

/-- No later steps through one value are seen through the other. -/
theorem Separate.later (hs : h.Separate root other) (hl : ReflTransGen (Later root other) h h') :
    h.AgreesOn h' other ∧ h'.Separate root other := by
  induction hl with
  | refl => exact ⟨fun _ _ => rfl, hs⟩
  | tail _ hstep ih =>
    obtain ⟨hagrees, hseparate⟩ := ih
    obtain ⟨hagrees', hseparate'⟩ := hstep.separate hseparate
    exact ⟨hagrees.trans hagrees', hseparate'⟩

end Heap

end ScriptLang
