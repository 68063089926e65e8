-- Hashes and their histories. A hash is what a row of changes has made of the empty one. It has
-- an entry for each key that came in and has not gone since, the pair that was written last, and
-- lists the entries in the order in which their keys came in.
import ScriptLang.Proofs.PlainStore

namespace ScriptLang

/-! ## Histories -/

/-- A change of a hash. -/
inductive HashChange where
  | insert (key value : Value)
  | remove (k : HashKey)

namespace HashChange

def apply : HashChange → HashObject → HashObject
  | insert key value, h => h.insert key value
  | remove k, h => h.erase k

/-- The pair that was written last under a key since the key was last removed. The newest change
of a history stands first. -/
def latest? (k : HashKey) : List HashChange → Option (Value × Value)
  | [] => none
  | insert key value :: earlier =>
    if HashKey.of? key = some k then some (key, value) else latest? k earlier
  | remove gone :: earlier => if gone = k then none else latest? k earlier

/-- When a key came in: how many changes there were before it was first written since it was last
absent. -/
def arrival? (k : HashKey) : List HashChange → Option Nat
  | [] => none
  | insert key _ :: earlier =>
    if HashKey.of? key = some k then some ((arrival? k earlier).getD earlier.length)
    else arrival? k earlier
  | remove gone :: earlier => if gone = k then none else arrival? k earlier

theorem arrival?_lt {k : HashKey} {changes : List HashChange} {i : Nat}
    (h : arrival? k changes = some i) : i < changes.length := by
  induction changes generalizing i with
  | nil => cases h
  | cons change earlier ih =>
    rw [List.length_cons]
    cases change with
    | insert key value =>
      simp only [arrival?] at h
      split at h
      · cases ha : arrival? k earlier with
        | none => simp [ha] at h; omega
        | some j =>
          have := ih ha
          simp [ha] at h
          omega
      · have := ih h
        omega
    | remove gone =>
      simp only [arrival?] at h
      split at h
      · cases h
      · have := ih h
        omega

/-- One key came in before another one. -/
def Precedes (changes : List HashChange) (a b : HashKey) : Prop :=
  ∃ i j, arrival? a changes = some i ∧ arrival? b changes = some j ∧ i < j

end HashChange

namespace HashObject

open HashChange

/-- The hash that a history makes of the empty one. -/
def after : List HashChange → HashObject
  | [] => .empty
  | change :: earlier => change.apply (after earlier)

/-- The keys of the entries. -/
def hashKeys (h : HashObject) : List HashKey := h.entries.map HashEntry.hashKey

/-- What a hash owes to its history: no key has two entries, each entry is under its own key, a
key has the pair that was written last, and the keys that came in earlier are listed before those
that came in later. -/
structure Follows (h : HashObject) (changes : List HashChange) : Prop where
  distinct : h.hashKeys.Nodup
  keyed : ∀ e ∈ h.entries, HashKey.of? e.key = some e.hashKey
  get : ∀ k, h.get? k = (latest? k changes).map fun pair => ⟨k, pair.1, pair.2⟩
  listed : ∀ k, k ∈ h.hashKeys ↔ (arrival? k changes).isSome = true
  order : h.hashKeys.Pairwise (Precedes changes)

/-! ## Writing an entry -/

variable {h : HashObject} {entry : HashEntry} {entries : List HashEntry}

theorem put_of_notMem (hk : entry.hashKey ∉ entries.map HashEntry.hashKey) :
    put entry entries = entries ++ [entry] := by
  induction entries with
  | nil => rfl
  | cons first rest ih =>
    simp only [List.map_cons, List.mem_cons, not_or] at hk
    rw [put, if_neg (Ne.symm hk.1), ih hk.2, List.cons_append]

/-- Writing to a key that is there keeps the keys and their order. -/
theorem map_hashKey_put (hk : entry.hashKey ∈ entries.map HashEntry.hashKey) :
    (put entry entries).map HashEntry.hashKey = entries.map HashEntry.hashKey := by
  induction entries with
  | nil => simp at hk
  | cons first rest ih =>
    by_cases hfirst : first.hashKey = entry.hashKey
    · simp [put, hfirst]
    · rw [put, if_neg hfirst]
      simp only [List.map_cons, List.mem_cons] at hk ⊢
      rw [ih (hk.resolve_left (Ne.symm hfirst))]

/-- What is found under a key behind a write. -/
theorem find?_put (k : HashKey) :
    (put entry entries).find? (fun e => e.hashKey = k) =
      if entry.hashKey = k then some entry else entries.find? fun e => e.hashKey = k := by
  induction entries with
  | nil => by_cases hk : entry.hashKey = k <;> simp [put, hk]
  | cons first rest ih =>
    by_cases hfirst : first.hashKey = entry.hashKey
    · by_cases hk : entry.hashKey = k <;> simp [put, hfirst, hk]
    · rw [put, if_neg hfirst, List.find?_cons, List.find?_cons, ih]
      by_cases hk : entry.hashKey = k
      · have hne : ¬first.hashKey = k := fun heq => hfirst (heq.trans hk.symm)
        simp [hk, hne]
      · simp [hk]

/-! ## One change -/

theorem insert_of_unhashable {key : Value} (hk : HashKey.of? key = none) (value : Value) :
    h.insert? key value = none ∧ h.insert key value = h := by
  simp [insert, insert?, hk]

theorem insert_of_hashable {key : Value} {k : HashKey} (hk : HashKey.of? key = some k)
    (value : Value) : h.insert key value = ⟨put ⟨k, key, value⟩ h.entries⟩ := by
  simp [insert, insert?, hk]

theorem get?_insert {key : Value} {k : HashKey} (hk : HashKey.of? key = some k) (value : Value)
    (k' : HashKey) :
    (h.insert key value).get? k' = if k = k' then some ⟨k, key, value⟩ else h.get? k' := by
  rw [insert_of_hashable hk]
  exact find?_put k'

theorem get?_erase (k k' : HashKey) :
    (h.erase k).get? k' = if k = k' then none else h.get? k' := by
  unfold erase get?
  rw [List.find?_filter]
  by_cases hk : k = k'
  · subst hk
    simp
  · rw [if_neg hk]
    congr 1
    funext e
    by_cases he : e.hashKey = k'
    · simp [he, Ne.symm hk]
    · simp [he]

theorem erase_of_absent {k : HashKey} (hk : h.get? k = none) : h.erase k = h := by
  have hnone : ∀ e ∈ h.entries, ¬e.hashKey = k := by
    simpa [get?] using hk
  have hall : h.entries.filter (fun e => e.hashKey ≠ k) = h.entries :=
    List.filter_eq_self.mpr fun e he => by simpa using hnone e he
  rw [erase, hall]

theorem follows_empty : empty.Follows [] := by
  refine ⟨List.nodup_nil, ?_, fun k => rfl, ?_, List.Pairwise.nil⟩
  · intro e he
    cases he
  · intro k
    simp [hashKeys, empty, arrival?]

/-! ## The order of the keys -/

theorem hashKeys_insert {key : Value} {k : HashKey} (hk : HashKey.of? key = some k)
    (value : Value) :
    (h.insert key value).hashKeys =
      if k ∈ h.hashKeys then h.hashKeys else h.hashKeys ++ [k] := by
  rw [insert_of_hashable hk]
  unfold hashKeys
  split
  · rename_i hmem
    exact map_hashKey_put hmem
  · rename_i hmem
    rw [put_of_notMem hmem, List.map_append, List.map_singleton]

theorem hashKeys_erase (k : HashKey) :
    (h.erase k).hashKeys = h.hashKeys.filter fun k' => k' ≠ k := by
  unfold erase hashKeys
  rw [List.filter_map]
  rfl

/-- A key that has come in stays where it is when it is written again. -/
theorem arrival?_again {key : Value} {k : HashKey} {changes : List HashChange}
    (hk : HashKey.of? key = some k) (hcame : (arrival? k changes).isSome = true) (value : Value)
    (k' : HashKey) : arrival? k' (.insert key value :: changes) = arrival? k' changes := by
  obtain ⟨i, hi⟩ := Option.isSome_iff_exists.mp hcame
  by_cases hkk : k = k'
  · subst hkk
    simp [arrival?, hk, hi]
  · simp [arrival?, hk, hkk]

/-- A key that was absent comes in behind all others, and the others came in when they did. -/
theorem arrival?_first {key : Value} {k : HashKey} {changes : List HashChange}
    (hk : HashKey.of? key = some k) (habsent : arrival? k changes = none) (value : Value)
    (k' : HashKey) :
    arrival? k' (.insert key value :: changes) =
      if k = k' then some changes.length else arrival? k' changes := by
  by_cases hkk : k = k'
  · subst hkk
    simp [arrival?, hk, habsent]
  · simp [arrival?, hk, hkk]

/-- Keys come in one before the other as long as a change does not touch them. -/
theorem precedes_of_same {changes later : List HashChange} {a b : HashKey}
    (h : Precedes changes a b) (ha : arrival? a later = arrival? a changes)
    (hb : arrival? b later = arrival? b changes) : Precedes later a b := by
  obtain ⟨i, j, hi, hj, hlt⟩ := h
  exact ⟨i, j, ha.trans hi, hb.trans hj, hlt⟩

/-! ## A change and a history -/

variable {changes : List HashChange}

theorem Follows.insert_unhashable (hf : h.Follows changes) {key : Value}
    (hk : HashKey.of? key = none) (value : Value) :
    (h.insert key value).Follows (.insert key value :: changes) := by
  obtain ⟨hdistinct, hkeyed, hget, hlisted, horder⟩ := hf
  rw [(insert_of_unhashable hk value).2]
  refine ⟨hdistinct, hkeyed, ?_, ?_, ?_⟩
  · intro k
    simp [hget, latest?, hk]
  · intro k
    simp [hlisted, arrival?, hk]
  · refine horder.imp fun hab => precedes_of_same hab ?_ ?_ <;> simp [arrival?, hk]

/-- An entry stands behind all others if its key was absent, and keeps its place if it was
there. -/
theorem Follows.order_insert (hf : h.Follows changes) {key : Value} {k : HashKey}
    (hk : HashKey.of? key = some k) (value : Value) :
    (h.insert key value).hashKeys.Pairwise (Precedes (.insert key value :: changes)) := by
  rw [hashKeys_insert hk]
  split
  · rename_i hmem
    have hcame := (hf.listed k).mp hmem
    exact hf.order.imp fun hab =>
      precedes_of_same hab (arrival?_again hk hcame value _) (arrival?_again hk hcame value _)
  · rename_i hmem
    have habsent : arrival? k changes = none := by
      rw [hf.listed k] at hmem
      simpa using hmem
    have hne : ∀ a ∈ h.hashKeys, k ≠ a := by
      intro a ha heq
      exact hmem (heq ▸ ha)
    rw [List.pairwise_append]
    refine ⟨?_, List.pairwise_singleton _ _, ?_⟩
    · refine hf.order.imp_of_mem fun ha hb hab => precedes_of_same hab ?_ ?_
      · rw [arrival?_first hk habsent, if_neg (hne _ ha)]
      · rw [arrival?_first hk habsent, if_neg (hne _ hb)]
    · intro a ha b hb
      rw [List.mem_singleton.mp hb]
      obtain ⟨i, hi⟩ := Option.isSome_iff_exists.mp ((hf.listed a).mp ha)
      refine ⟨i, changes.length, ?_, ?_, arrival?_lt hi⟩
      · rw [arrival?_first hk habsent, if_neg (hne a ha), hi]
      · rw [arrival?_first hk habsent, if_pos rfl]

theorem Follows.insert_hashable (hf : h.Follows changes) {key : Value} {k : HashKey}
    (hk : HashKey.of? key = some k) (value : Value) :
    (h.insert key value).Follows (.insert key value :: changes) := by
  have hmem : ∀ k', k' ∈ (h.insert key value).hashKeys ↔ k' = k ∨ k' ∈ h.hashKeys := by
    intro k'
    rw [hashKeys_insert hk]
    split
    · rename_i hthere
      constructor
      · exact Or.inr
      · rintro (rfl | h')
        · exact hthere
        · exact h'
    · rw [List.mem_append, List.mem_singleton, or_comm]
  refine ⟨?_, ?_, ?_, ?_, hf.order_insert hk value⟩
  · rw [hashKeys_insert hk]
    split
    · exact hf.distinct
    · rename_i hnew
      rw [List.nodup_append]
      refine ⟨hf.distinct, by simp, ?_⟩
      intro a ha b hb heq
      rw [List.mem_singleton.mp hb] at heq
      exact hnew (heq ▸ ha)
  · intro e he
    rw [insert_of_hashable hk] at he
    rcases mem_put he with rfl | hold
    · exact hk
    · exact hf.keyed e hold
  · intro k'
    rw [get?_insert hk, hf.get]
    by_cases hkk : k = k'
    · subst hkk
      simp [latest?, hk]
    · simp [latest?, hk, hkk]
  · intro k'
    rw [hmem, hf.listed]
    by_cases hkk : k = k'
    · subst hkk
      simp [arrival?, hk]
    · simp [arrival?, hk, hkk, Ne.symm hkk]

theorem Follows.erase (hf : h.Follows changes) (k : HashKey) :
    (h.erase k).Follows (.remove k :: changes) := by
  refine ⟨?_, ?_, ?_, ?_, ?_⟩
  · rw [hashKeys_erase]
    exact hf.distinct.filter _
  · intro e he
    exact hf.keyed e (List.mem_filter.mp he).1
  · intro k'
    rw [get?_erase, hf.get]
    by_cases hk : k = k' <;> simp [latest?, hk]
  · intro k'
    rw [hashKeys_erase, List.mem_filter, hf.listed]
    by_cases hk : k = k'
    · simp [arrival?, hk]
    · simp [arrival?, hk, Ne.symm hk]
  · rw [hashKeys_erase]
    refine (hf.order.filter _).imp_of_mem fun ha hb hab => ?_
    have hka : k ≠ _ := Ne.symm (by simpa using (List.mem_filter.mp ha).2)
    have hkb : k ≠ _ := Ne.symm (by simpa using (List.mem_filter.mp hb).2)
    exact precedes_of_same hab (by simp [arrival?, hka]) (by simp [arrival?, hkb])

theorem Follows.apply (hf : h.Follows changes) (change : HashChange) :
    (change.apply h).Follows (change :: changes) := by
  cases change with
  | insert key value =>
    cases hk : HashKey.of? key with
    | none => exact hf.insert_unhashable hk value
    | some k => exact hf.insert_hashable hk value
  | remove k => exact hf.erase k

/-- Every hash follows its history. -/
theorem follows_after (changes : List HashChange) : (after changes).Follows changes := by
  induction changes with
  | nil => exact follows_empty
  | cons change earlier ih => exact ih.apply change

/-! ## Hashes that have a history -/

/-- A hash that some history makes of the empty one. -/
def Built (h : HashObject) : Prop := ∃ changes, h = after changes

theorem built_empty : empty.Built := ⟨[], rfl⟩

theorem Built.apply (hb : h.Built) (change : HashChange) : (change.apply h).Built := by
  obtain ⟨changes, rfl⟩ := hb
  exact ⟨change :: changes, rfl⟩

theorem Built.insert (hb : h.Built) (key value : Value) : (h.insert key value).Built :=
  hb.apply (.insert key value)

end HashObject

end ScriptLang
