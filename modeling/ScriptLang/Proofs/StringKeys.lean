-- Strings as keys. A hash knows a string by a number of 64 bits. So two strings with different
-- numbers never get in each other's way, and two strings with the same number are one key.
import ScriptLang.Proofs.Collections
import ScriptLang.Proofs.HashLaws

namespace ScriptLang

open Eval

/-! ## Two strings in a hash -/

/-- The key that a hash knows a string by. -/
def stringKey (s : String) : HashKey := ⟨.string, textHash s⟩

namespace HashObject

variable (object : HashObject) (s t : String) (v w : Value)

/-- What is found under a string behind two writes: the second one hides the first if the strings
are one key. -/
theorem get?_first_of_two :
    ((object.insert (.string s) v).insert (.string t) w).get? (stringKey s) =
      if textHash t = textHash s then some ⟨stringKey t, .string t, w⟩
      else some ⟨stringKey s, .string s, v⟩ := by
  have hs : HashKey.of? (.string s) = some (stringKey s) := rfl
  have ht : HashKey.of? (.string t) = some (stringKey t) := rfl
  rw [get?_insert ht, get?_insert hs, if_pos rfl]
  simp [stringKey]

theorem get?_second_of_two :
    ((object.insert (.string s) v).insert (.string t) w).get? (stringKey t) =
      some ⟨stringKey t, .string t, w⟩ := by
  have ht : HashKey.of? (.string t) = some (stringKey t) := rfl
  rw [get?_insert ht, if_pos rfl]

variable {object}

theorem mem_keys_of_get? {k : HashKey} {e : HashEntry} (he : object.get? k = some e) :
    e.key ∈ object.keys := List.mem_map_of_mem (List.mem_of_find?_eq_some he)

end HashObject

/-! ## Two writes -/

namespace Eval

variable {m : Machine} {id : HashId}

theorem readElement_string {s : String} {e : HashEntry}
    (he : (m.store.heap.hash id).get? (stringKey s) = some e) :
    readElement (.hash id) (.string s) m = .ok e.value m := by
  change EStateM.Result.ok (m.store.heap.index (.hash id) (.string s)) m = _
  have hs : HashKey.of? (.string s) = some (stringKey s) := rfl
  simp only [Heap.index, hs, he]

/-- `keys` gives a new array of the keys. -/
theorem callMethod_keys (m : Machine) (id : HashId) :
    ∃ listing last, callMethod (.hash id) "keys" [] m = .ok (.array listing) last ∧
      (last.store.heap.array listing).toList = (m.store.heap.hash id).keys := by
  refine ⟨_, _, rfl, ?_⟩
  change ((m.store.heap.newArray _).2.array (m.store.heap.newArray _).1).toList = _
  rw [Heap.array_newArray]

/-- Writing under two strings, one after the other, makes two changes of the hash. -/
theorem writeElement_both (hid : m.store.heap.Has (.hash id)) (s t : String) (v w : Value) :
    ∃ between after, writeElement (.hash id) (.string s) v m = .ok v between ∧
      writeElement (.hash id) (.string t) w between = .ok w after ∧
      after.store.heap.hash id =
        ((m.store.heap.hash id).insert (.string s) v).insert (.string t) w := by
  let first := m.store.heap.modifyHash id (·.insert (.string s) v)
  refine ⟨m.withHeap first, m.withHeap (first.modifyHash id (·.insert (.string t) w)),
    rfl, rfl, ?_⟩
  have hfirst : first.Has (.hash id) := by
    simpa [first, Heap.modifyHash, Heap.Has] using hid
  change (first.modifyHash id _).hash id = _
  rw [first.hash_modifyHash hfirst, m.store.heap.hash_modifyHash hid]

/-! ## The law -/

/-- Two strings have the values that were written under them one after the other, and both are
listed. -/
def KeptApart (m : Machine) (id : HashId) (s t : String) (v w : Value) : Prop :=
  ∃ between after last listing,
    writeElement (.hash id) (.string s) v m = .ok v between ∧
    writeElement (.hash id) (.string t) w between = .ok w after ∧
    readElement (.hash id) (.string s) after = .ok v after ∧
    readElement (.hash id) (.string t) after = .ok w after ∧
    callMethod (.hash id) "keys" [] after = .ok (.array listing) last ∧
    .string s ∈ last.store.heap.array listing ∧ .string t ∈ last.store.heap.array listing

/-- Strings with different numbers are kept apart, in every hash and for all values. Strings with
the same number are one key, and what was written last is read under both. -/
theorem strings_kept_apart (m : Machine) (id : HashId) (hid : m.store.heap.Has (.hash id))
    (s t : String) (v w : Value) :
    (textHash s ≠ textHash t → KeptApart m id s t v w) ∧
    (textHash s = textHash t → ∃ between after,
      writeElement (.hash id) (.string s) v m = .ok v between ∧
      writeElement (.hash id) (.string t) w between = .ok w after ∧
      readElement (.hash id) (.string s) after = .ok w after ∧
      readElement (.hash id) (.string t) after = .ok w after) := by
  obtain ⟨between, after, hfirst, hsecond, hhash⟩ := writeElement_both hid s t v w
  have hgets := HashObject.get?_first_of_two (m.store.heap.hash id) s t v w
  have hgett := HashObject.get?_second_of_two (m.store.heap.hash id) s t v w
  rw [← hhash] at hgets hgett
  constructor
  · intro hne
    rw [if_neg (Ne.symm hne)] at hgets
    obtain ⟨listing, last, hkeys, hlisting⟩ := callMethod_keys after id
    refine ⟨between, after, last, listing, hfirst, hsecond, readElement_string hgets,
      readElement_string hgett, hkeys, ?_, ?_⟩
    · rw [← Array.mem_toList_iff, hlisting]
      exact HashObject.mem_keys_of_get? hgets
    · rw [← Array.mem_toList_iff, hlisting]
      exact HashObject.mem_keys_of_get? hgett
  · intro heq
    rw [if_pos heq.symm] at hgets
    exact ⟨between, after, hfirst, hsecond, readElement_string hgets, readElement_string hgett⟩

/-- A state with one empty hash. -/
def withEmptyHash : Machine :=
  (Machine.start Host.plain .unlimited 0).withHeap ⟨#[], #[.empty]⟩

theorem name_and_age_kept_apart :
    withEmptyHash.store.heap.Has (.hash ⟨0⟩) ∧ textHash "name" ≠ textHash "age" ∧
      KeptApart withEmptyHash ⟨0⟩ "name" "age" (.integer 1) (.integer 2) := by
  have hid : withEmptyHash.store.heap.Has (.hash ⟨0⟩) := Nat.zero_lt_one
  have hne : textHash "name" ≠ textHash "age" := by decide +kernel
  exact ⟨hid, hne, (strings_kept_apart withEmptyHash ⟨0⟩ hid _ _ _ _).1 hne⟩

/-- Two different strings of twenty characters with the same number are not kept apart. -/
theorem colliding_strings_not_kept_apart :
    withEmptyHash.store.heap.Has (.hash ⟨0⟩) ∧
    "8yn0iYCKYHlIj4-BwPqk" ≠ "GReLUrM4wMqfg9yzV3KQ" ∧
    ¬KeptApart withEmptyHash ⟨0⟩ "8yn0iYCKYHlIj4-BwPqk" "GReLUrM4wMqfg9yzV3KQ" (.integer 1)
      (.integer 2) := by
  have hid : withEmptyHash.store.heap.Has (.hash ⟨0⟩) := Nat.zero_lt_one
  have heq : textHash "8yn0iYCKYHlIj4-BwPqk" = textHash "GReLUrM4wMqfg9yzV3KQ" := by
    decide +kernel
  refine ⟨hid, by decide, ?_⟩
  rintro ⟨between, after, -, -, hfirst, hsecond, hread, -⟩
  obtain ⟨between', after', hfirst', hsecond', hhash⟩ :=
    writeElement_both hid "8yn0iYCKYHlIj4-BwPqk" "GReLUrM4wMqfg9yzV3KQ" (.integer 1) (.integer 2)
  rw [hfirst] at hfirst'
  cases hfirst'
  rw [hsecond] at hsecond'
  cases hsecond'
  have hget := HashObject.get?_first_of_two (withEmptyHash.store.heap.hash ⟨0⟩)
    "8yn0iYCKYHlIj4-BwPqk" "GReLUrM4wMqfg9yzV3KQ" (.integer 1) (.integer 2)
  rw [if_pos heq.symm, ← hhash] at hget
  rw [readElement_string hget] at hread
  cases hread

end Eval

end ScriptLang
