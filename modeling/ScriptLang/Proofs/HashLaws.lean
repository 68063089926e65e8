-- What programs see of hashes. Literals and copies insert pairs one after the other, and writing,
-- deleting and `remove` make one change each; so every hash in every state of a run has a history,
-- and what is read, listed and written of it is what the history says.
import Mathlib.Data.List.Basic
import ScriptLang.Proofs.CollectionEdits

namespace ScriptLang

open Eval

namespace HashObject

open HashChange

/-! ## Listings -/

variable {h : HashObject} {changes : List HashChange}

theorem get?_of_mem (hd : h.hashKeys.Nodup) {e : HashEntry} (he : e ∈ h.entries) :
    h.get? e.hashKey = some e := by
  unfold hashKeys at hd
  unfold get?
  generalize h.entries = entries at hd he
  induction entries with
  | nil => cases he
  | cons first rest ih =>
    rw [List.map_cons, List.nodup_cons] at hd
    rcases List.mem_cons.mp he with rfl | hrest
    · simp
    · have hne : first.hashKey ≠ e.hashKey := by
        intro heq
        exact hd.1 (heq ▸ List.mem_map_of_mem hrest)
      rw [List.find?_cons_of_neg (by simpa using hne)]
      exact ih hd.2 hrest

/-- The entries are what is found under the keys, one key after the other. -/
theorem entries_eq (hd : h.hashKeys.Nodup) : h.entries = h.hashKeys.filterMap h.get? := by
  unfold hashKeys
  rw [List.filterMap_map]
  have hfound : ∀ e ∈ h.entries, (h.get? ∘ HashEntry.hashKey) e = some e := fun e he =>
    get?_of_mem hd he
  rw [List.filterMap_congr hfound, List.filterMap_some]

/-- What a hash shows of its history: for each key that is in it, in the order in which they came
in, the pair that was written last. -/
structure Shows (h : HashObject) (changes : List HashChange) : Prop where
  keys : h.keys = h.hashKeys.filterMap fun k => (latest? k changes).map Prod.fst
  values : h.values = h.hashKeys.filterMap fun k => (latest? k changes).map Prod.snd
  size : h.size = h.hashKeys.length ∧ h.size = h.keys.length ∧ h.size = h.values.length

theorem Follows.map_entries (hf : h.Follows changes) (f : HashEntry → Value) :
    h.entries.map f =
      h.hashKeys.filterMap fun k => (latest? k changes).map fun pair => f ⟨k, pair.1, pair.2⟩ :=
  calc
    h.entries.map f = (h.hashKeys.filterMap h.get?).map f :=
      congrArg (List.map f) (entries_eq hf.distinct)
    _ = _ := by simp [List.map_filterMap, hf.get, Function.comp_def]

theorem Follows.shows (hf : h.Follows changes) : h.Shows changes :=
  ⟨hf.map_entries HashEntry.key, hf.map_entries HashEntry.value,
    by simp [size, hashKeys, keys, values]⟩

/-! ## Pairs in a row -/

/-- The history of pairs that are inserted one after the other. -/
def inserts (pairs : List (Value × Value)) : List HashChange :=
  (pairs.map fun pair => HashChange.insert pair.1 pair.2).reverse

theorem after_inserts_cons (pair : Value × Value) (pairs : List (Value × Value))
    (changes : List HashChange) :
    after (inserts (pair :: pairs) ++ changes) =
      after (inserts pairs ++ .insert pair.1 pair.2 :: changes) := by
  simp [inserts]

end HashObject

open HashObject

/-- The pairs of a hash literal come to keys and values, one pair after the other. A key is
evaluated before its value, and has to be fit for a key. -/
inductive Eval.PairsGive (eval : EvalExpr Eval) :
    List (Expr × Expr) → Machine → List (Value × Value) → Machine → Prop where
  | nil (m : Machine) : PairsGive eval [] m [] m
  | cons {pair : Expr × Expr} {rest : List (Expr × Expr)} {m m1 m2 m' : Machine}
      {key value : Value} {given : List (Value × Value)}
      (hkey : eval pair.1 m = .ok key m1) (hk : (HashKey.of? key).isSome = true)
      (hvalue : eval pair.2 m1 = .ok value m2) (hv : value.isSignal = false)
      (hrest : PairsGive eval rest m2 given m') :
      PairsGive eval (pair :: rest) m ((key, value) :: given) m'

/-- A signal is not fit for a key. -/
theorem HashKey.isSignal_of_isSome {key : Value} (hk : (HashKey.of? key).isSome = true) :
    key.isSignal = false := by
  cases key <;> first | rfl | cases hk

/-- A hash literal inserts the keys and values that its pairs come to. -/
theorem Eval.hashPairs_of_given {eval : EvalExpr Eval} {pairs : List (Expr × Expr)}
    {given : List (Value × Value)} {m m' : Machine} (h : PairsGive eval pairs m given m')
    (changes : List HashChange) :
    hashPairs eval (after changes) pairs m = .ok (.ok (after (inserts given ++ changes))) m' := by
  induction h generalizing changes with
  | nil => rfl
  | cons hkey hk hvalue hv hrest ih =>
    have hgood := Option.isSome_iff_ne_none.mp hk
    unfold hashPairs
    rw [bind_run, hkey]
    simp only [HashKey.isSignal_of_isSome hk, Option.isNone_iff_eq_none, hgood, if_false,
      Bool.false_eq_true]
    rw [bind_run, hvalue]
    simp only [hv, if_false, Bool.false_eq_true]
    rw [after_inserts_cons]
    exact ih (.insert _ _ :: changes)

/-- A hash literal makes a hash only where all its pairs come to keys and values. -/
theorem Eval.given_of_hashPairs {eval : EvalExpr Eval} {pairs : List (Expr × Expr)}
    {object made : HashObject} {m m' : Machine}
    (h : hashPairs eval object pairs m = .ok (.ok made) m') :
    ∃ given, PairsGive eval pairs m given m' := by
  induction pairs generalizing object m with
  | nil =>
    cases h
    exact ⟨[], .nil _⟩
  | cons pair rest ih =>
    unfold hashPairs at h
    obtain ⟨key, m1, hkey, h⟩ := bind_eq_ok_iff.mp h
    split at h
    · cases h
    · split at h
      · cases h
      · rename_i hgood
        obtain ⟨value, m2, hvalue, h⟩ := bind_eq_ok_iff.mp h
        split at h
        · cases h
        · rename_i hv
          obtain ⟨given, hgiven⟩ := ih h
          have hk : (HashKey.of? key).isSome = true := by
            simpa [Option.isSome_iff_ne_none] using hgood
          exact ⟨(key, value) :: given,
            .cons hkey hk hvalue (Bool.not_eq_true _ ▸ hv) hgiven⟩

/-- A hash literal makes the hash that inserting its keys and values makes, and no other. -/
theorem Eval.hashPairs_eq_ok_iff {eval : EvalExpr Eval} {pairs : List (Expr × Expr)}
    {made : HashObject} {m m' : Machine} :
    hashPairs eval .empty pairs m = .ok (.ok made) m' ↔
      ∃ given, PairsGive eval pairs m given m' ∧ made = after (inserts given) := by
  constructor
  · intro h
    obtain ⟨given, hgiven⟩ := given_of_hashPairs h
    have hmade := hashPairs_of_given hgiven []
    rw [List.append_nil] at hmade
    cases h.symm.trans hmade
    exact ⟨given, hgiven, rfl⟩
  · rintro ⟨given, hgiven, rfl⟩
    have hmade := hashPairs_of_given hgiven []
    rw [List.append_nil] at hmade
    exact hmade

namespace Heap

/-- Keys are no collections, so they are their own copies. -/
theorem copyWithin_of_hashable {key : Value} {k : HashKey} (hk : HashKey.of? key = some k)
    (depth : Nat) (h : Heap) : copyWithin depth h key = (key, h) := by
  cases depth with
  | zero => rfl
  | succ depth =>
    cases key with
    | array id => cases hk
    | hash id => cases hk
    | _ => rfl

/-- Copying the entries of a hash inserts the copies of the values, under the same keys. -/
theorem copyEntries_inserts (depth : Nat) (h : Heap) (changes : List HashChange)
    {es : List HashEntry} (hk : ∀ e ∈ es, HashKey.of? e.key = some e.hashKey) :
    let copied := copyList (copyWithin depth) h (es.map HashEntry.value)
    copyEntries (copyWithin depth) h (after changes) es =
      (after (inserts ((es.map HashEntry.key).zip copied.1) ++ changes), copied.2) := by
  induction es generalizing h changes with
  | nil => rfl
  | cons e es ih =>
    have hkey := copyWithin_of_hashable (hk e List.mem_cons_self) depth h
    have hrest := ih (copyWithin depth h e.value).2
      (.insert e.key (copyWithin depth h e.value).1 :: changes)
      fun e he => hk e (List.mem_cons_of_mem _ he)
    simp only [copyEntries, copyList, hkey, List.map_cons, List.zip_cons_cons, after_inserts_cons]
    exact hrest

/-- The copy of a hash has the history of its keys with the copies of its values. -/
theorem copyWithin_hash (depth : Nat) (h : Heap) {id : HashId} (hb : (h.hash id).Built) :
    let copied := copyList (copyWithin depth) h (h.hash id).values
    let made := copied.2.newHash (after (inserts ((h.hash id).keys.zip copied.1)))
    copyWithin (depth + 1) h (.hash id) = (.hash made.1, made.2) := by
  obtain ⟨changes, hchanges⟩ := hb
  have hcopy := h.copyEntries_inserts depth []
    (hchanges ▸ (follows_after changes).keyed : ∀ e ∈ (h.hash id).entries, _)
  simp only [List.append_nil] at hcopy
  change copyEntries (copyWithin depth) h .empty (h.hash id).entries = _ at hcopy
  simp only [copyWithin, hcopy]
  rfl

/-! ## Single changes -/

variable {key : Value} {k : HashKey} (id : HashId) (h : Heap)

theorem write_hash (hk : HashKey.of? key = some k) (value : Value) :
    left (write (.hash id) key value h) =
      h.modifyHash id (HashChange.insert key value).apply := by
  simp only [write, hk]
  rfl

theorem delete_hash (hk : HashKey.of? key = some k) :
    left (delete (.hash id) key h) = h.modifyHash id (HashChange.remove k).apply := by
  simp only [delete, hk]
  rfl

/-- Nothing changes where there is nothing to remove. -/
theorem modifyHash_of_absent (hk : (h.hash id).get? k = none) :
    h.modifyHash id (HashChange.remove k).apply = h := by
  have hsame : h.hashes.modify id.index (HashChange.remove k).apply = h.hashes := by
    apply Array.ext
    · simp
    · intro i hi hi'
      rw [Array.getElem_modify]
      split
      · rename_i hid
        have hobject : h.hash id = h.hashes[i] := by
          simp [hash, Array.getD, hid, hi']
        rw [hobject] at hk
        exact erase_of_absent hk
      · rfl
  rw [modifyHash, hsame]

theorem get_bind_run (f : Heap → HeapOp Value) :
    ((get : HeapOp Heap) >>= f) h = f h h := rfl

theorem call_remove (hk : HashKey.of? key = some k) (d : Definitions) :
    Method.call d (.hash id) "remove" [key] h =
      match (h.hash id).get? k with
      | some entry => .ok entry.value (h.modifyHash id (HashChange.remove k).apply)
      | none => .ok .null h := by
  simp only [Method.call, Method.ofHash, Method.oneKey, Method.oneArgument, hk]
  rw [get_bind_run]
  cases (h.hash id).get? k <;> rfl

theorem remove_hash (hk : HashKey.of? key = some k) (d : Definitions) :
    left (Method.call d (.hash id) "remove" [key] h) =
      h.modifyHash id (HashChange.remove k).apply := by
  rw [call_remove id h hk d]
  cases hget : (h.hash id).get? k with
  | none => exact (modifyHash_of_absent id h hget).symm
  | some entry => rfl

/-- A value that is no key changes nothing, whatever is done with it. -/
theorem unchanged_of_unhashable (hk : HashKey.of? key = none) (d : Definitions) (value : Value) :
    write (.hash id) key value h = .error (.unhashable key.kind) h ∧
    delete (.hash id) key h = .error (.unhashable key.kind) h ∧
    Method.call d (.hash id) "remove" [key] h = .error (.unhashable key.kind) h := by
  refine ⟨?_, ?_, ?_⟩
  · simp only [write, hk]
    rfl
  · simp only [delete, hk]
    rfl
  · simp only [Method.call, Method.ofHash, Method.oneKey, Method.oneArgument, hk]
    rfl

/-- Reading gives what was written last. -/
theorem index_hash (hk : HashKey.of? key = some k) {changes : List HashChange}
    (hf : (h.hash id).Follows changes) :
    h.index (.hash id) key = ((HashChange.latest? k changes).map Prod.snd).getD .null := by
  simp only [index, hk, hf.get]
  cases HashChange.latest? k changes <;> rfl

end Heap

/-! ## Runs -/

/-- Every hash has a history. -/
def Heap.HashesBuilt (h : Heap) : Prop := ∀ object ∈ h.hashes, object.Built

/-- A plugin that changes hashes as programs do, by inserting and removing. -/
def Plugin.KeepsHashes (plugin : Plugin) : Prop :=
  ∀ name f, (name, f) ∈ plugin.functions → ∀ args h, h.HashesBuilt → (f args h).2.HashesBuilt

theorem Heap.HashesBuilt.edit {plugins : Array Plugin} {h h' : Heap} (hb : h.HashesBuilt)
    (hp : ∀ plugin ∈ plugins, plugin.KeepsHashes) (he : Edit plugins h h') : h'.HashesBuilt := by
  cases he with
  | newArray items => exact hb
  | newHash hobject =>
    intro object hmem
    rcases Array.mem_push.mp hmem with hold | rfl
    · exact hb object hold
    · exact hobject
  | changeArray id f => exact hb
  | changeHash id change =>
    intro object hmem
    obtain ⟨i, hi, rfl⟩ := Array.mem_iff_getElem.mp hmem
    simp only [modifyHash, Array.size_modify] at hi
    simp only [modifyHash, Array.getElem_modify]
    split
    · exact (hb _ (Array.getElem_mem hi)).apply change
    · exact hb _ (Array.getElem_mem hi)
  | plugin hplugin hf args => exact hp _ hplugin _ _ hf args h hb

theorem Heap.HashesBuilt.edits {plugins : Array Plugin} {h h' : Heap} (hb : h.HashesBuilt)
    (hp : ∀ plugin ∈ plugins, plugin.KeepsHashes) (he : Edits plugins h h') : h'.HashesBuilt := by
  induction he with
  | refl => exact hb
  | tail _ hedit ih => exact ih.edit hp hedit

/-- Every hash of a state has a history, and no plugin makes one without. -/
structure Machine.HashesBuilt (m : Machine) : Prop where
  heap : m.store.heap.HashesBuilt
  plugins : ∀ plugin ∈ m.store.definitions.plugins, plugin.KeepsHashes

theorem Machine.HashesBuilt.editedFrom {m m' : Machine} (hm : m.HashesBuilt)
    (he : m'.EditedFrom m.store.definitions.plugins m.store.heap) : m'.HashesBuilt :=
  ⟨hm.heap.edits hm.plugins he.edits, he.same ▸ hm.plugins⟩

theorem Machine.hashesBuilt_start {host : Host} (hp : ∀ plugin ∈ host.plugins, plugin.KeepsHashes)
    (sink : Sink) (seed : UInt64) : (Machine.start host sink seed).HashesBuilt := by
  refine ⟨?_, ?_⟩
  · intro object hmem
    simp [Machine.start, Store.empty, Heap.empty] at hmem
  · intro plugin hmem
    exact hp plugin (by simpa [Machine.start] using hmem)

/-! ## The law -/

/-- The text of a pair inside a hash. -/
def Definitions.pairText (item : Value → String) (pair : Value × Value) : String :=
  elementText item pair.1 ++ ": " ++ elementText item pair.2

/-- The text of a hash has the texts of its pairs in the order in which they are listed. -/
theorem Definitions.renderWithin_hash (d : Definitions) (h : Heap) (depth : Nat)
    {above : List OpenCollection} {id : HashId} (hopen : .hash id ∉ above) :
    d.renderWithin h (depth + 1) above (.hash id) =
      openBrace ++ commaSeparated (((h.hash id).keys.zip (h.hash id).values).map
        (pairText (d.renderWithin h depth (.hash id :: above)))) ++ closeBrace := by
  have hpairs : (h.hash id).keys.zip (h.hash id).values =
      (h.hash id).entries.map fun e => (e.key, e.value) := List.zip_map'
  simp [renderWithin, Value.payload, hopen, hpairs, pairText, Function.comp_def]

/-- A hash does what its history says. What is found under a key, and listed of all keys, is what
was written last, in the order in which the keys came in; what is no key changes nothing. Writing,
deleting and `remove` make one change, literals and copies insert their pairs, and so every hash in
every state of a run has such a history, if plugins have no way around it. -/
theorem hashes_follow_their_histories :
    (∀ changes, (after changes).Follows changes ∧ (after changes).Shows changes) ∧
    (∀ (h : HashObject) (key value : Value), HashKey.of? key = none →
      h.insert? key value = none ∧ h.insert key value = h) ∧
    -- The operations on a hash.
    (∀ (d : Definitions) (h : Heap) (id : HashId) (key value : Value) (k : HashKey),
      HashKey.of? key = some k →
      Heap.left (Heap.write (.hash id) key value h) =
        h.modifyHash id (HashChange.insert key value).apply ∧
      Heap.left (Heap.delete (.hash id) key h) = h.modifyHash id (HashChange.remove k).apply ∧
      Heap.left (Method.call d (.hash id) "remove" [key] h) =
        h.modifyHash id (HashChange.remove k).apply ∧
      ∀ changes, h.hash id = after changes →
        h.index (.hash id) key = ((HashChange.latest? k changes).map Prod.snd).getD .null) ∧
    (∀ (d : Definitions) (h : Heap) (id : HashId) (key value : Value), HashKey.of? key = none →
      Heap.write (.hash id) key value h = .error (.unhashable key.kind) h ∧
      Heap.delete (.hash id) key h = .error (.unhashable key.kind) h ∧
      Method.call d (.hash id) "remove" [key] h = .error (.unhashable key.kind) h) ∧
    -- Literals and copies.
    (∀ (eval : EvalExpr Eval) (pairs : List (Expr × Expr)) (made : HashObject) (m m' : Machine),
      hashPairs eval .empty pairs m = .ok (.ok made) m' ↔
        ∃ given, PairsGive eval pairs m given m' ∧ made = after (inserts given)) ∧
    (∀ (host : Host) (fuel : Nat) (eval : EvalExpr Eval) (pairs : List (Expr × Expr))
      (position : Position) (given : List (Value × Value)) (m m' : Machine),
      PairsGive eval pairs m given m' →
        exprStep host fuel eval (.hash pairs position) m =
          newHash (after (inserts given)) m') ∧
    (∀ (depth : Nat) (h : Heap) (id : HashId), (h.hash id).Built →
      let copied := Heap.copyList (Heap.copyWithin depth) h (h.hash id).values
      let made := copied.2.newHash (after (inserts ((h.hash id).keys.zip copied.1)))
      Heap.copyWithin (depth + 1) h (.hash id) = (.hash made.1, made.2)) ∧
    -- Listings and texts.
    (∀ (d : Definitions) (h : Heap) (id : HashId),
      Method.call d (.hash id) "keys" [] h = Method.newArray (h.hash id).keys h ∧
      Method.call d (.hash id) "values" [] h = Method.newArray (h.hash id).values h ∧
      Method.call d (.hash id) "len" [] h = .ok (.integer (Integer.ofLength (h.hash id).size)) h ∧
      ∀ (depth : Nat) (above : List OpenCollection), .hash id ∉ above →
        d.renderWithin h (depth + 1) above (.hash id) =
          openBrace ++ commaSeparated (((h.hash id).keys.zip (h.hash id).values).map
            (Definitions.pairText (d.renderWithin h depth (.hash id :: above)))) ++ closeBrace) ∧
    -- Runs.
    (∀ (host : Host) (sink : Sink) (seed : UInt64), (∀ p ∈ host.plugins, p.KeepsHashes) →
      (Machine.start host sink seed).HashesBuilt) ∧
    ∀ (host : Host) (fuel : Nat) (p : Program) (m : Machine), m.HashesBuilt →
      (∀ k ∈ moments host fuel p m, k.machine.HashesBuilt) ∧
      (left ((program host fuel p : Eval Value) m)).HashesBuilt := by
  refine ⟨fun changes => ⟨follows_after changes, (follows_after changes).shows⟩,
    fun h key value hk => insert_of_unhashable hk value, ?_,
    fun d h id key value hk => h.unchanged_of_unhashable id hk d value,
    fun eval pairs made m m' => hashPairs_eq_ok_iff, ?_,
    fun depth h id hb => h.copyWithin_hash depth hb, ?_,
    fun host sink seed hp => Machine.hashesBuilt_start hp sink seed, ?_⟩
  · intro d h id key value k hk
    refine ⟨h.write_hash id hk value, h.delete_hash id hk, h.remove_hash id hk d, ?_⟩
    intro changes hchanges
    exact h.index_hash id hk (hchanges ▸ follows_after changes)
  · intro host fuel eval pairs position given m m' hgiven
    have hmade := hashPairs_eq_ok_iff.mpr ⟨given, hgiven, rfl⟩
    change (hashPairs eval .empty pairs >>= _) m = _
    rw [bind_run, hmade]
    rfl
  · intro d h id
    refine ⟨rfl, rfl, rfl, ?_⟩
    intro depth above hopen
    exact d.renderWithin_hash h depth hopen
  · intro host fuel p m hm
    exact ⟨fun k hk => hm.editedFrom (moments_edited host fuel p m k hk),
      hm.editedFrom (left_edited host fuel p m)⟩

theorem Plugin.keepsHashes_all : ∀ p ∈ [math, text, empty], p.KeepsHashes := by
  intro p hp name f hf args h hb
  simp only [List.mem_cons, List.not_mem_nil, or_false] at hp
  rcases hp with rfl | rfl | rfl
  · simp only [math, List.mem_singleton, Prod.mk.injEq] at hf
    obtain ⟨-, rfl⟩ := hf
    unfold square
    split
    · split <;> exact hb
    · exact hb
  · simp only [text, List.mem_cons, Prod.mk.injEq, List.not_mem_nil, or_false] at hf
    rcases hf with ⟨-, rfl⟩ | ⟨-, rfl⟩ | ⟨-, rfl⟩
    · unfold shout
      split <;> exact hb
    · exact hb
    · exact hb
  · simp [empty] at hf

/-- A key that is removed and comes back is listed behind one that was written again. A literal that
writes a key twice keeps the second value in the place of the first. -/
theorem returning_key_follows_its_history :
    let host : Host := { Host.plain with plugins := [.math, .text, .empty] }
    let changes : List HashChange :=
      [.insert (.integer 1) (.integer 30), .remove ⟨.integer, 1⟩,
        .insert (.integer 2) (.integer 21), .insert (.integer 2) (.integer 20),
        .insert (.integer 1) (.integer 10)]
    let integer (n : Int64) : Expr := .integer n .start
    let pairs := [(integer 2, integer 20), (integer 1, integer 10), (integer 2, integer 21)]
    let given := [(Value.integer 2, Value.integer 20), (.integer 1, .integer 10),
      (.integer 2, .integer 21)]
    let m := Machine.start host .unlimited 0
    (after changes).Follows changes ∧
    (after changes).keys = [.integer 2, .integer 1] ∧
    (after changes).values = [.integer 21, .integer 30] ∧
    (after changes).insert? .null (.integer 5) = none ∧
    PairsGive (Eval.expr host 2) pairs m given m ∧
    (exprStep host 2 (Eval.expr host 2) (.hash pairs .start) : Eval Value) m =
      newHash (after (inserts given)) m ∧
    (after (inserts given)).keys = [.integer 2, .integer 1] ∧
    (after (inserts given)).values = [.integer 21, .integer 10] ∧
    m.HashesBuilt := by
  intro host changes integer pairs given m
  obtain ⟨hlaw, hunhashable, -, -, -, hliteral, -, -, hstart, -⟩ := hashes_follow_their_histories
  have hgiven : PairsGive (Eval.expr host 2) pairs m given m :=
    .cons rfl rfl rfl rfl (.cons rfl rfl rfl rfl (.cons rfl rfl rfl rfl (.nil m)))
  exact ⟨(hlaw changes).1, rfl, rfl, (hunhashable _ .null _ rfl).1, hgiven,
    hliteral host 2 _ pairs .start given m m hgiven, rfl, rfl,
    hstart host .unlimited 0 Plugin.keepsHashes_all⟩

end ScriptLang
