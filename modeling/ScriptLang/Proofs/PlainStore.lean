-- A store is plain if nothing in it is a signal: no binding, no element of an array, no key or
-- value of a hash and no branch of an enum. Every change of a store that gets ordinary values
-- keeps it plain, and what is read from a plain store is an ordinary value or an error.
import ScriptLang.Machine
import ScriptLang.Value.Copy
import ScriptLang.Proofs.Settled

namespace ScriptLang

/-- An ordinary value: not a signal. -/
def Value.Plain (v : Value) : Prop := v.isSignal = false

theorem Value.Plain.isSettled {v : Value} (h : v.Plain) : v.isSettled = true :=
  isSettled_of_plain h

/-! ## Hashes -/

namespace HashObject

/-- Keys and values of a hash satisfy a predicate. -/
def Holds (P : Value → Prop) (h : HashObject) : Prop :=
  ∀ entry ∈ h.entries, P entry.key ∧ P entry.value

variable {P : Value → Prop} {h : HashObject}

theorem holds_empty : empty.Holds P := by
  simp [Holds, empty]

theorem mem_put {e entry : HashEntry} {entries : List HashEntry} (he : e ∈ put entry entries) :
    e = entry ∨ e ∈ entries := by
  induction entries with
  | nil => simpa [put] using he
  | cons first rest ih =>
    unfold put at he
    split at he
    · rcases List.mem_cons.mp he with h1 | h1
      · exact Or.inl h1
      · exact Or.inr (List.mem_cons_of_mem _ h1)
    · rcases List.mem_cons.mp he with h1 | h1
      · exact Or.inr (h1 ▸ List.mem_cons_self)
      · exact (ih h1).imp_right (List.mem_cons_of_mem _)

theorem Holds.insert (hh : h.Holds P) {key value : Value} (hk : P key) (hv : P value) :
    (h.insert key value).Holds P := by
  unfold HashObject.insert insert?
  cases HashKey.of? key with
  | none => exact hh
  | some k =>
    intro e he
    rcases mem_put he with rfl | he
    · exact ⟨hk, hv⟩
    · exact hh e he

theorem Holds.erase (hh : h.Holds P) (k : HashKey) : (h.erase k).Holds P := by
  intro e he
  exact hh e (List.mem_filter.mp he).1

theorem Holds.get? (hh : h.Holds P) {k : HashKey} {entry : HashEntry}
    (hk : h.get? k = some entry) : P entry.value :=
  (hh entry (List.mem_of_find?_eq_some hk)).2

end HashObject

/-! ## Collections -/

/-- No array element and no key or value of a hash is a signal. -/
structure Heap.Plain (h : Heap) : Prop where
  arrays : ∀ items ∈ h.arrays, ∀ v ∈ items, v.Plain
  hashes : ∀ object ∈ h.hashes, object.Holds Value.Plain

namespace Heap

variable {h : Heap}

theorem Plain.array (hh : h.Plain) (id : ArrayId) : ∀ v ∈ h.array id, v.Plain := by
  intro v hv
  unfold Heap.array at hv
  rw [Array.getD_eq_getD_getElem?] at hv
  cases hi : h.arrays[id.index]? with
  | none => simp [hi] at hv
  | some items =>
    rw [hi] at hv
    exact hh.arrays items (Array.mem_of_getElem? hi) v hv

theorem Plain.hash (hh : h.Plain) (id : HashId) : (h.hash id).Holds Value.Plain := by
  unfold Heap.hash
  rw [Array.getD_eq_getD_getElem?]
  cases hi : h.hashes[id.index]? with
  | none => exact HashObject.holds_empty
  | some object => exact hh.hashes object (Array.mem_of_getElem? hi)

theorem Plain.newArray (hh : h.Plain) {items : Array Value} (hi : ∀ v ∈ items, v.Plain) :
    (h.newArray items).2.Plain := by
  refine ⟨?_, hh.hashes⟩
  intro is his
  rcases Array.mem_push.mp his with h1 | rfl
  · exact hh.arrays is h1
  · exact hi

theorem Plain.newHash (hh : h.Plain) {object : HashObject} (ho : object.Holds Value.Plain) :
    (h.newHash object).2.Plain := by
  refine ⟨hh.arrays, ?_⟩
  intro o hmem
  rcases Array.mem_push.mp hmem with h1 | rfl
  · exact hh.hashes o h1
  · exact ho

/-- What is in an array after one element of it has been changed. -/
theorem mem_modify {α : Type} {xs : Array α} {i : Nat} {f : α → α} {y : α}
    (hy : y ∈ xs.modify i f) : y ∈ xs ∨ ∃ x ∈ xs, y = f x := by
  obtain ⟨j, hj, rfl⟩ := Array.mem_iff_getElem.mp hy
  rw [Array.size_modify] at hj
  rw [Array.getElem_modify]
  split
  · exact Or.inr ⟨xs[j], Array.getElem_mem hj, rfl⟩
  · exact Or.inl (Array.getElem_mem hj)

theorem Plain.modifyArray (hh : h.Plain) (id : ArrayId) {f : Array Value → Array Value}
    (hf : ∀ items, (∀ v ∈ items, v.Plain) → ∀ v ∈ f items, v.Plain) :
    (h.modifyArray id f).Plain := by
  refine ⟨?_, hh.hashes⟩
  intro items hi
  rcases mem_modify hi with h1 | ⟨old, h1, rfl⟩
  · exact hh.arrays items h1
  · exact hf old (hh.arrays old h1)

theorem Plain.modifyHash (hh : h.Plain) (id : HashId) {f : HashObject → HashObject}
    (hf : ∀ object, object.Holds Value.Plain → (f object).Holds Value.Plain) :
    (h.modifyHash id f).Plain := by
  refine ⟨hh.arrays, ?_⟩
  intro object ho
  rcases mem_modify ho with h1 | ⟨old, h1, rfl⟩
  · exact hh.hashes object h1
  · exact hf old (hh.hashes old h1)

theorem Plain.index (hh : h.Plain) (container key : Value) :
    (h.index container key).isSettled = true := by
  cases container with
  | array id =>
    cases key with
    | integer i =>
      simp only [Heap.index]
      cases Integer.toIndex? i with
      | none => rfl
      | some slot =>
        cases hs : (h.array id)[slot]? with
        | none => simp only [hs]; rfl
        | some v =>
          simp only [hs]
          exact (hh.array id v (Array.mem_of_getElem? hs)).isSettled
    | _ => rfl
  | hash id =>
    simp only [Heap.index]
    cases HashKey.of? key with
    | none => rfl
    | some k =>
      cases he : (h.hash id).get? k with
      | none => simp only [he]; rfl
      | some entry => simp only [he]; exact Value.Plain.isSettled ((hh.hash id).get? he)
  | _ => rfl

/-! ## Changes of the collections -/

/-- A change of the collections that keeps them plain, with what holds of its result. -/
def Keeps {α : Type} (op : HeapOp α) (P : α → Prop) : Prop :=
  ∀ h : Heap, h.Plain → match op h with
    | .ok a after => P a ∧ after.Plain
    | .error _ after => after.Plain

namespace Keeps

variable {α β : Type} {P : α → Prop} {Q : β → Prop}

theorem pure {a : α} (ha : P a) : Keeps (pure a) P := fun _ hh => ⟨ha, hh⟩

theorem throw (fault : Fault) : Keeps (throw fault) P := fun _ hh => hh

theorem bind {op : HeapOp α} {next : α → HeapOp β} (h1 : Keeps op P)
    (h2 : ∀ a, P a → Keeps (next a) Q) : Keeps (op >>= next) Q := by
  intro h hh
  have hop := h1 h hh
  change match EStateM.bind op next h with
    | .ok a after => Q a ∧ after.Plain
    | .error _ after => after.Plain
  unfold EStateM.bind
  cases hr : op h with
  | ok a after =>
    rw [hr] at hop
    exact h2 a hop.1 after hop.2
  | error fault after =>
    rw [hr] at hop
    exact hop

theorem get : Keeps (get : HeapOp Heap) Heap.Plain := fun _ hh => ⟨hh, hh⟩

theorem modify {f : Heap → Heap} (hf : ∀ h, h.Plain → (f h).Plain) :
    Keeps (modify f) fun _ => True := fun h hh => ⟨trivial, hf h hh⟩

theorem mono {P' : α → Prop} {op : HeapOp α} (h : Keeps op P) (hp : ∀ a, P a → P' a) :
    Keeps op P' := by
  intro heap hh
  have hop := h heap hh
  cases hr : op heap with
  | ok a after =>
    rw [hr] at hop
    exact ⟨hp a hop.1, hop.2⟩
  | error fault after =>
    rw [hr] at hop
    exact hop

end Keeps

theorem Keeps.write (container key : Value) {value : Value} (hv : value.Plain) :
    Keeps (Heap.write container key value) fun _ => True := by
  unfold Heap.write
  cases container with
  | array id =>
    cases key with
    | integer i =>
      refine .bind .get fun heap _ => ?_
      dsimp only
      cases Integer.toIndex? i with
      | none => exact .throw _
      | some slot =>
        dsimp only
        split
        · refine .modify fun h hh => hh.modifyArray id fun items hi v hmem => ?_
          rcases Array.mem_or_eq_of_mem_setIfInBounds hmem with h1 | rfl
          · exact hi v h1
          · exact hv
        · split
          · refine .modify fun h hh => hh.modifyArray id fun items hi v hmem => ?_
            rcases Array.mem_push.mp hmem with h1 | rfl
            · exact hi v h1
            · exact hv
          · exact .throw _
    | _ => exact .throw _
  | hash id =>
    dsimp only
    cases hk : HashKey.of? key with
    | none => exact .throw _
    | some k =>
      have hkey : key.Plain := by
        cases key <;> first | rfl | cases hk
      exact .modify fun h hh => hh.modifyHash id fun object ho => ho.insert hkey hv
  | _ => exact .throw _

theorem Keeps.delete (container key : Value) :
    Keeps (Heap.delete container key) fun _ => True := by
  unfold Heap.delete
  cases container with
  | array id =>
    cases key with
    | integer i =>
      refine .bind .get fun heap _ => ?_
      dsimp only
      cases Integer.toIndex? i with
      | none => exact .throw _
      | some slot =>
        dsimp only
        split
        · refine .modify fun h hh => hh.modifyArray id fun items hi v hmem => ?_
          rw [Array.mem_def, Array.toList_eraseIdxIfInBounds] at hmem
          exact hi v (Array.mem_def.mpr (List.mem_of_mem_eraseIdx hmem))
        · exact .throw _
    | _ => exact .throw _
  | hash id =>
    dsimp only
    cases HashKey.of? key with
    | none => exact .throw _
    | some k => exact .modify fun h hh => hh.modifyHash id fun object ho => ho.erase k
  | _ => exact .throw _

/-! ## Copies -/

/-- A way to copy a value that keeps the collections plain. -/
def Copies (copy : Heap → Value → Value × Heap) : Prop :=
  ∀ h v, Heap.Plain h → Value.Plain v → (copy h v).1.Plain ∧ (copy h v).2.Plain

theorem Copies.list {copy : Heap → Value → Value × Heap} (hc : Copies copy) (hh : h.Plain)
    {vs : List Value} (hv : ∀ v ∈ vs, v.Plain) :
    (∀ v ∈ (copyList copy h vs).1, v.Plain) ∧ (copyList copy h vs).2.Plain := by
  induction vs generalizing h with
  | nil => exact ⟨by simp [copyList], hh⟩
  | cons v vs ih =>
    have h1 := hc h v hh (hv v (by simp))
    have h2 := ih h1.2 fun w hw => hv w (by simp [hw])
    exact ⟨List.forall_mem_cons.mpr ⟨h1.1, h2.1⟩, h2.2⟩

theorem Copies.entries {copy : Heap → Value → Value × Heap} (hc : Copies copy) (hh : h.Plain)
    {object : HashObject} (ho : object.Holds Value.Plain) {es : List HashEntry}
    (he : ∀ e ∈ es, e.key.Plain ∧ e.value.Plain) :
    (copyEntries copy h object es).1.Holds Value.Plain ∧
      (copyEntries copy h object es).2.Plain := by
  induction es generalizing h object with
  | nil => exact ⟨ho, hh⟩
  | cons e es ih =>
    obtain ⟨hk, hv⟩ := he e (by simp)
    have h1 := hc h e.key hh hk
    have h2 := hc (copy h e.key).2 e.value h1.2 hv
    exact ih h2.2 (ho.insert h1.1 h2.1) fun e' hmem => he e' (by simp [hmem])

theorem copies_copyWithin (depth : Nat) : Copies (copyWithin depth) := by
  induction depth with
  | zero => exact fun h v hh hv => ⟨hv, hh⟩
  | succ depth ih =>
    intro h v hh hv
    cases v with
    | array id =>
      have hi : ∀ v ∈ (h.array id).toList, v.Plain := fun v hv => hh.array id v (by simpa using hv)
      have hl := ih.list hh hi
      exact ⟨rfl, hl.2.newArray fun v hv => hl.1 v (by simpa using hv)⟩
    | hash id =>
      have he := ih.entries hh HashObject.holds_empty (hh.hash id)
      exact ⟨rfl, he.2.newHash he.1⟩
    | _ => exact ⟨hv, hh⟩

end Heap

/-! ## Scopes and enums -/

theorem mem_of_lookup {β : Type} {name : String} {b : β} {pairs : List (String × β)}
    (h : pairs.lookup name = some b) : (name, b) ∈ pairs := by
  obtain ⟨before, after, rfl, -⟩ := List.lookup_eq_some_iff.mp h
  simp

/-- No binding is a signal. -/
def Scopes.Plain (s : Scopes) : Prop := ∀ scope ∈ s.all, ∀ b ∈ scope.bindings, b.2.Plain

namespace Scopes

variable {s : Scopes}

theorem mem_bind {name : String} {value : Value} {b : String × Value}
    {bindings : List (String × Value)} (hb : b ∈ Scope.bind name value bindings) :
    b = (name, value) ∨ b ∈ bindings := by
  induction bindings with
  | nil => simpa [Scope.bind] using hb
  | cons first rest ih =>
    unfold Scope.bind at hb
    split at hb
    · rcases List.mem_cons.mp hb with h1 | h1
      · exact Or.inl h1
      · exact Or.inr (List.mem_cons_of_mem _ h1)
    · rcases List.mem_cons.mp hb with h1 | h1
      · exact Or.inr (h1 ▸ List.mem_cons_self)
      · exact (ih h1).imp_right (List.mem_cons_of_mem _)

theorem Plain.define (hs : s.Plain) (id : ScopeId) (name : String) {value : Value}
    (hv : value.Plain) : (s.define id name value).Plain := by
  intro scope hmem
  simp only [Scopes.define] at hmem
  rcases Heap.mem_modify hmem with h1 | ⟨old, h1, rfl⟩
  · exact hs scope h1
  · intro b hb
    rcases mem_bind hb with rfl | h2
    · exact hv
    · exact hs old h1 b h2

theorem Plain.enclosed (hs : s.Plain) (outer : ScopeId) : (s.enclosed outer).2.Plain := by
  intro scope hmem
  rcases Array.mem_push.mp hmem with h1 | rfl
  · exact hs scope h1
  · simp

theorem Plain.get? (hs : s.Plain) {id : ScopeId} {name : String} {value : Value}
    (h : s.get? id name = some value) : value.Plain := by
  unfold Scopes.get? at h
  obtain ⟨owner, -, hl⟩ := Option.bind_eq_some_iff.mp h
  unfold local? at hl
  split at hl
  · rename_i scope hscope
    exact hs scope (Array.mem_of_getElem? hscope) _ (mem_of_lookup hl)
  · cases hl

end Scopes

/-- No branch of an enum is a signal. -/
def Definitions.Plain (d : Definitions) : Prop :=
  ∀ type ∈ d.enums, ∀ b ∈ type.branches, b.2.Plain

namespace Definitions

variable {d : Definitions}

theorem Plain.newEnum (hd : d.Plain) {type : EnumType} (ht : ∀ b ∈ type.branches, b.2.Plain) :
    (d.newEnum type).2.Plain := by
  intro t hmem
  rcases Array.mem_push.mp hmem with h1 | rfl
  · exact hd t h1
  · exact ht

theorem Plain.enum? (hd : d.Plain) {id : EnumId} {type : EnumType} (h : d.enum? id = some type) :
    ∀ b ∈ type.branches, b.2.Plain :=
  hd type (Array.mem_of_getElem? h)

end Definitions

/-- Nothing in a store is a signal. -/
structure Store.Plain (s : Store) : Prop where
  heap : s.heap.Plain
  scopes : s.scopes.Plain
  definitions : s.definitions.Plain

end ScriptLang
