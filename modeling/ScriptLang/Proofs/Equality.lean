-- Equality of values. Values that hold neither floats nor signals are the same exactly if they are
-- one and the same, or collections of the same kind with the same contents; the contents of a hash
-- are what is found under its keys, in whatever order they came in.
import Mathlib.Data.List.Forall2
import Mathlib.Data.List.Perm.Subperm
import ScriptLang.Operation
import ScriptLang.Proofs.Copies

namespace ScriptLang

/-! ## Contents of hashes -/

namespace HashObject

variable {a b a' b' : HashObject} {same : Value → Value → Bool} {k : HashKey} {e : HashEntry}

theorem get?_eq_some_iff (hd : a.hashKeys.Nodup) :
    a.get? k = some e ↔ e ∈ a.entries ∧ e.hashKey = k := by
  constructor
  · intro hget
    exact ⟨List.mem_of_find?_eq_some hget, by simpa using List.find?_some hget⟩
  · rintro ⟨hmem, rfl⟩
    exact get?_of_mem hd hmem

theorem mem_hashKeys_iff (hd : a.hashKeys.Nodup) :
    k ∈ a.hashKeys ↔ ∃ e, a.get? k = some e := by
  simp only [get?_eq_some_iff hd, hashKeys, List.mem_map]

/-- If all keys of one hash are keys of another one with as many entries, then the other one has
no more keys. -/
theorem hashKeys_subset (ha : a.hashKeys.Nodup) (hsize : a.size = b.size)
    (hsub : a.hashKeys ⊆ b.hashKeys) : b.hashKeys ⊆ a.hashKeys := by
  have hlength : b.hashKeys.length ≤ a.hashKeys.length := by
    simp only [hashKeys, List.length_map]
    exact Nat.le_of_eq hsize.symm
  exact ((List.subperm_of_subset ha hsub).perm_of_length_le hlength).symm.subset

theorem sameBy_iff_found :
    sameBy same a b = true ↔ a.size = b.size ∧ ∀ e ∈ a.entries,
      ∃ e', b.get? e.hashKey = some e' ∧ same e'.value e.value = true := by
  simp only [sameBy, Bool.and_eq_true, beq_iff_eq, List.all_eq_true]
  refine and_congr_right fun _ => forall₂_congr fun e _ => ?_
  cases b.get? e.hashKey with
  | none => simp
  | some e' => simp

/-- The value under a key. -/
def value? (h : HashObject) (k : HashKey) : Option Value := (h.get? k).map HashEntry.value

/-- Two hashes have the same contents if the same is found under every key. -/
theorem sameBy_iff (ha : a.hashKeys.Nodup) (hb : b.hashKeys.Nodup) :
    sameBy same a b = true ↔
      ∀ k, Option.Rel (fun x y => same y x = true) (a.value? k) (b.value? k) := by
  rw [sameBy_iff_found]
  constructor
  · rintro ⟨hsize, hall⟩ k
    have hsub : a.hashKeys ⊆ b.hashKeys := by
      intro k hk
      obtain ⟨e, he⟩ := (mem_hashKeys_iff ha).mp hk
      obtain ⟨hmem, rfl⟩ := (get?_eq_some_iff ha).mp he
      obtain ⟨e', hget, -⟩ := hall e hmem
      exact (mem_hashKeys_iff hb).mpr ⟨e', hget⟩
    unfold value?
    cases hk : a.get? k with
    | some e =>
      obtain ⟨hmem, rfl⟩ := (get?_eq_some_iff ha).mp hk
      obtain ⟨e', hget, hvalue⟩ := hall e hmem
      rw [hget]
      exact .some hvalue
    | none =>
      -- The other hash has no more keys, because it has no more entries.
      cases hk' : b.get? k with
      | none => exact .none
      | some e' =>
        have hmem := hashKeys_subset ha hsize hsub ((mem_hashKeys_iff hb).mpr ⟨e', hk'⟩)
        obtain ⟨e, he⟩ := (mem_hashKeys_iff ha).mp hmem
        rw [hk] at he
        cases he
  · intro hrel
    have hkeys : a.hashKeys.Perm b.hashKeys := by
      refine (List.perm_ext_iff_of_nodup ha hb).mpr fun k => ?_
      rw [mem_hashKeys_iff ha, mem_hashKeys_iff hb]
      have hk := hrel k
      unfold value? at hk
      cases hx : a.get? k <;> cases hy : b.get? k <;> simp_all
    refine ⟨by simpa [hashKeys, size] using hkeys.length_eq, fun e he => ?_⟩
    have hfound := hrel e.hashKey
    unfold value? at hfound
    rw [get?_of_mem ha he] at hfound
    cases hget : b.get? e.hashKey with
    | none => simp [hget] at hfound
    | some e' => exact ⟨e', rfl, by simpa [hget] using hfound⟩

/-- What is found does not depend on the order of the entries. -/
theorem get?_perm (ha : a.hashKeys.Nodup) (hp : a'.entries.Perm a.entries) (k : HashKey) :
    a'.get? k = a.get? k := by
  have ha' : a'.hashKeys.Nodup := (hp.map HashEntry.hashKey).nodup_iff.mpr ha
  refine Option.ext fun e => ?_
  rw [get?_eq_some_iff ha, get?_eq_some_iff ha', hp.mem_iff]

theorem sameBy_perm (hb : b.hashKeys.Nodup) (hpa : a'.entries.Perm a.entries)
    (hpb : b'.entries.Perm b.entries) : sameBy same a' b' = sameBy same a b := by
  rw [Bool.eq_iff_iff, sameBy_iff_found, sameBy_iff_found]
  simp only [size, hpa.length_eq, hpb.length_eq, hpa.mem_iff, get?_perm hb hpb]

/-- Entries that agree one by one are found under the same keys. -/
theorem value?_of_forall₂ {R : Value → Value → Prop}
    (hf : List.Forall₂ (fun e e' => e.hashKey = e'.hashKey ∧ R e.value e'.value)
      a.entries b.entries) (k : HashKey) : Option.Rel R (a.value? k) (b.value? k) := by
  unfold value? get?
  generalize a.entries = es at hf
  generalize b.entries = es' at hf
  induction hf with
  | nil => exact .none
  | cons hfirst _ ih =>
    rw [List.find?_cons, List.find?_cons, hfirst.1]
    split
    · exact .some hfirst.2
    · exact ih

end HashObject

/-! ## Parts of values -/

/-- A step into a collection: to an element of an array, or to the value under a key. -/
inductive Step where
  | element (i : Nat)
  | entry (k : HashKey)

namespace Heap

variable {h h' : Heap} {a b u v w x y : Value} {c : Collection} {step : Step}
variable {R S : Value → Value → Prop} {nested : Value → Value → Bool}

/-- What a step into a value leads to. -/
def part? (h : Heap) : Value → Step → Option Value
  | .array id, .element i => (h.array id)[i]?
  | .hash id, .entry k => (h.hash id).value? k
  | _, _ => none

theorem inside_of_part (hx : h.part? v step = some x) :
    ∃ c, v.collection? = some c ∧ x ∈ h.inside c := by
  unfold part? at hx
  split at hx
  · rename_i id i
    exact ⟨.array id, rfl, mem_inside_array.mpr (Array.mem_toList_iff.mpr
      (Array.mem_of_getElem? hx))⟩
  · rename_i id k
    obtain ⟨e, he, rfl⟩ := Option.map_eq_some_iff.mp hx
    exact ⟨.hash id, rfl, mem_inside_hash.mpr ⟨e, List.mem_of_find?_eq_some he, Or.inr rfl⟩⟩
  · cases hx

/-- Two values are one and the same, or collections of the same kind whose parts agree. -/
inductive Matches (h : Heap) (R : Value → Value → Prop) : Value → Value → Prop
  | self {v : Value} : Matches h R v v
  | arrays {i j : ArrayId}
      (hparts : ∀ step, Option.Rel R (h.part? (.array i) step) (h.part? (.array j) step)) :
      Matches h R (.array i) (.array j)
  | hashes {i j : HashId}
      (hparts : ∀ step, Option.Rel R (h.part? (.hash i) step) (h.part? (.hash j) step)) :
      Matches h R (.hash i) (.hash j)

/-- Parts agree in one way if they agree in another one. -/
theorem rel_imp {p q : Option Value} (hr : Option.Rel R p q)
    (hR : ∀ x y, p = some x → q = some y → R x y → S x y) : Option.Rel S p q := by
  cases hr with
  | none => exact .none
  | some hxy => exact .some (hR _ _ rfl rfl hxy)

theorem rel_self (hR : ∀ x, R x x) (p : Option Value) : Option.Rel R p p := by
  cases p with
  | none => exact .none
  | some x => exact .some (hR x)

namespace Matches

theorem imp (hm : h.Matches R a b)
    (hR : ∀ step x y, h.part? a step = some x → h.part? b step = some y → R x y → S x y) :
    h.Matches S a b := by
  cases hm with
  | self => exact .self
  | arrays hparts => exact .arrays fun step => rel_imp (hparts step) (hR step)
  | hashes hparts => exact .hashes fun step => rel_imp (hparts step) (hR step)

theorem symm (hm : h.Matches R a b) : h.Matches (fun x y => R y x) b a := by
  have hswap : ∀ {p q : Option Value}, Option.Rel R p q → Option.Rel (fun x y => R y x) q p := by
    intro p q hr
    cases hr with
    | none => exact .none
    | some hxy => exact .some hxy
  cases hm with
  | self => exact .self
  | arrays hparts => exact .arrays fun step => hswap (hparts step)
  | hashes hparts => exact .hashes fun step => hswap (hparts step)

theorem trans (hR : ∀ x y z, R x y → R y z → R x z) (hm : h.Matches R a b)
    (hn : h.Matches R b u) : h.Matches R a u := by
  have hjoin : ∀ {p q r : Option Value}, Option.Rel R p q → Option.Rel R q r →
      Option.Rel R p r := by
    intro p q r hpq hqr
    cases hpq with
    | none => exact hqr
    | some hxy =>
      cases hqr with
      | some hyz => exact .some (hR _ _ _ hxy hyz)
  cases hm with
  | self => exact hn
  | arrays hparts =>
    cases hn with
    | self => exact .arrays hparts
    | arrays hparts' => exact .arrays fun step => hjoin (hparts step) (hparts' step)
  | hashes hparts =>
    cases hn with
    | self => exact .hashes hparts
    | hashes hparts' => exact .hashes fun step => hjoin (hparts step) (hparts' step)

end Matches

/-! ## What the comparison of two values comes to -/

theorem HashesBuilt.hash (hb : h.HashesBuilt) (id : HashId) : (h.hash id).Built := by
  unfold Heap.hash Array.getD
  split
  · exact hb _ (Array.getElem_mem _)
  · exact HashObject.built_empty

theorem HashesBuilt.distinct (hb : h.HashesBuilt) (id : HashId) :
    (h.hash id).hashKeys.Nodup := by
  obtain ⟨changes, hchanges⟩ := hb.hash id
  rw [hchanges]
  exact (HashObject.follows_after changes).distinct

theorem HashesBuilt.keyed (hb : h.HashesBuilt) {id : HashId} {e : HashEntry}
    (he : e ∈ (h.hash id).entries) : HashKey.of? e.key = some e.hashKey := by
  obtain ⟨changes, hchanges⟩ := hb.hash id
  rw [hchanges] at he
  exact (HashObject.follows_after changes).keyed e he

/-- Lists of the same length that agree at every place are those that agree at every index. -/
theorem all_zip_iff {xs ys : List Value} :
    xs.length = ys.length ∧ (xs.zip ys).all (fun pair => nested pair.1 pair.2) = true ↔
      ∀ i : Nat, Option.Rel (fun x y => nested x y = true) xs[i]? ys[i]? := by
  induction xs generalizing ys with
  | nil =>
    cases ys with
    | nil => simp
    | cons y ys => simpa using ⟨0, by simp⟩
  | cons x xs ih =>
    cases ys with
    | nil => simpa using ⟨0, by simp⟩
    | cons y ys =>
      rw [← Nat.and_forall_add_one]
      simp only [List.getElem?_cons_zero, List.getElem?_cons_succ, ← ih]
      simp [and_left_comm]

theorem equalsBy_arrays {i j : ArrayId} :
    h.equalsBy nested (.array i) (.array j) = true ↔
      i = j ∨ ∀ step, Option.Rel (fun x y => nested x y = true)
        (h.part? (.array i) step) (h.part? (.array j) step) := by
  simp only [equalsBy, Bool.or_eq_true, beq_iff_eq, Bool.and_eq_true, ← Array.length_toList]
  rw [all_zip_iff]
  refine or_congr_right ⟨fun hi step => ?_, fun hs n => ?_⟩
  · cases step with
    | element n => simpa [part?] using hi n
    | entry k => exact .none
  · simpa [part?] using hs (.element n)

theorem equalsBy_hashes (hb : h.HashesBuilt) {i j : HashId} :
    h.equalsBy nested (.hash i) (.hash j) = true ↔
      i = j ∨ ∀ step, Option.Rel (fun x y => nested y x = true)
        (h.part? (.hash i) step) (h.part? (.hash j) step) := by
  simp only [equalsBy, Bool.or_eq_true, beq_iff_eq,
    HashObject.sameBy_iff (hb.distinct i) (hb.distinct j)]
  refine or_congr_right ⟨fun hk step => ?_, fun hs k => hs (.entry k)⟩
  cases step with
  | element n => exact .none
  | entry k => exact hk k

end Heap

namespace Value

/-- Two numbers of the same value that are not both integers. -/
def SameNumber : Value → Value → Prop
  | float x, float y => (x == y) = true
  | integer n, float x => (Integer.toFloat n == x) = true
  | float x, integer n => (Integer.toFloat n == x) = true
  | _, _ => False

/-- A value is neither a float nor a signal. -/
def Discrete (v : Value) : Prop := v.kind ≠ .float ∧ v.isSignal = false

theorem Discrete.not_sameNumber {a b : Value} (ha : a.Discrete) (hb : b.Discrete) :
    ¬SameNumber a b := by
  unfold SameNumber
  split
  · exact absurd rfl ha.1
  · exact absurd rfl hb.1
  · exact absurd rfl ha.1
  · exact id

end Value

namespace Heap

variable {h h' : Heap} {a b u v w x y : Value} {c : Collection} {n : Nat}
variable {R : Value → Value → Prop} {nested : Value → Value → Bool}

/-- Values that are found to be the same match, or are numbers. The values under a key are
compared the other way round. -/
theorem matches_of_equalsBy (hb : h.HashesBuilt) (he : h.equalsBy nested a b = true)
    (hR : ∀ step x y, h.part? a step = some x → h.part? b step = some y →
      (nested x y = true → R x y) ∧ (nested y x = true → R x y)) :
    h.Matches R a b ∨ Value.SameNumber a b := by
  unfold equalsBy at he
  split at he
  -- At least one float.
  case h_2 | h_3 | h_4 => exact Or.inr he
  -- Arrays and hashes.
  case h_8 =>
    rcases equalsBy_arrays.mp he with rfl | hparts
    · exact Or.inl .self
    · exact Or.inl (.arrays fun step => rel_imp (hparts step) fun x y hx hy =>
        (hR step x y hx hy).1)
  case h_9 =>
    rcases (equalsBy_hashes hb).mp he with rfl | hparts
    · exact Or.inl .self
    · exact Or.inl (.hashes fun step => rel_imp (hparts step) fun x y hx hy =>
        (hR step x y hx hy).2)
  -- What remains is `null`, values that differ, and values that are compared as they are.
  case h_7 => exact Or.inl .self
  case h_14 => cases he
  all_goals
    rw [beq_iff_eq.mp he]
    exact Or.inl .self

/-- Values that match are found to be the same, if they are neither floats nor signals. -/
theorem equalsBy_of_matches (hb : h.HashesBuilt) (ha : a.Discrete) (hm : h.Matches R a b)
    (hR : ∀ step x y, h.part? a step = some x → h.part? b step = some y → R x y →
      nested x y = true ∧ nested y x = true) : h.equalsBy nested a b = true := by
  cases hm with
  | self =>
    cases a with
    | float x => exact absurd rfl ha.1
    | error fault | returning value | breaking => exact absurd ha.2 (by simp [Value.isSignal])
    | _ => simp [equalsBy]
  | arrays hparts =>
    refine equalsBy_arrays.mpr (Or.inr fun step => rel_imp (hparts step) ?_)
    exact fun x y hx hy hxy => (hR step x y hx hy hxy).1
  | hashes hparts =>
    refine (equalsBy_hashes hb).mpr (Or.inr fun step => rel_imp (hparts step) ?_)
    exact fun x y hx hy hxy => (hR step x y hx hy hxy).2

/-! ## Values that can be compared -/

/-- Something is true of a value and of every value in the collections that it reaches. -/
def Throughout (h : Heap) (P : Value → Prop) (v : Value) : Prop :=
  P v ∧ ∀ c, h.Reaches v c → ∀ w ∈ h.inside c, P w

theorem Throughout.part {P : Value → Prop} (ht : h.Throughout P v) {step : Step}
    (hw : h.part? v step = some w) : h.Throughout P w := by
  obtain ⟨c, hv, hmem⟩ := inside_of_part hw
  exact ⟨ht.2 c (.self hv) w hmem, fun d hd => ht.2 d (hd.head hv hmem)⟩

/-- Values without floats and signals that are the same, so many levels deep. -/
structure SameWithin (h : Heap) (n : Nat) (a b : Value) : Prop where
  left : h.Throughout Value.Discrete a
  right : h.Throughout Value.Discrete b
  same : h.equalsWithin n a b = true

/-- If it does not matter below which value is compared with the other, values are the same if
they match. -/
theorem sameWithin_succ_of_symm (hb : h.HashesBuilt)
    (hsymm : ∀ x y, h.SameWithin n x y → h.SameWithin n y x) :
    h.SameWithin (n + 1) a b ↔ h.Throughout Value.Discrete a ∧ h.Throughout Value.Discrete b ∧
      h.Matches (h.SameWithin n) a b := by
  constructor
  · rintro ⟨ha, hb', hsame⟩
    refine ⟨ha, hb', ?_⟩
    refine (matches_of_equalsBy hb hsame ?_).resolve_right (ha.1.not_sameNumber hb'.1)
    intro step x y hx hy
    exact ⟨fun hxy => ⟨ha.part hx, hb'.part hy, hxy⟩,
      fun hyx => hsymm _ _ ⟨hb'.part hy, ha.part hx, hyx⟩⟩
  · rintro ⟨ha, hb', hm⟩
    refine ⟨ha, hb', equalsBy_of_matches hb ha.1 hm ?_⟩
    exact fun _ x y _ _ hxy => ⟨hxy.same, (hsymm x y hxy).same⟩

theorem SameWithin.symm (hb : h.HashesBuilt) (hs : h.SameWithin n a b) : h.SameWithin n b a := by
  induction n generalizing a b with
  | zero => cases hs.same
  | succ n ih =>
    obtain ⟨ha, hb', hm⟩ := (sameWithin_succ_of_symm hb fun _ _ => ih).mp hs
    refine (sameWithin_succ_of_symm hb fun _ _ => ih).mpr ⟨hb', ha, ?_⟩
    exact hm.symm.imp fun _ _ _ _ _ => ih

/-- On each level, values are the same if they match. -/
theorem sameWithin_succ (hb : h.HashesBuilt) :
    h.SameWithin (n + 1) a b ↔ h.Throughout Value.Discrete a ∧ h.Throughout Value.Discrete b ∧
      h.Matches (h.SameWithin n) a b :=
  sameWithin_succ_of_symm hb fun _ _ hxy => hxy.symm hb

theorem SameWithin.trans (hb : h.HashesBuilt) (hs : h.SameWithin n a b)
    (ht : h.SameWithin n b u) : h.SameWithin n a u := by
  induction n generalizing a b u with
  | zero => cases hs.same
  | succ n ih =>
    obtain ⟨ha, -, hm⟩ := (sameWithin_succ hb).mp hs
    obtain ⟨-, hu, hm'⟩ := (sameWithin_succ hb).mp ht
    exact (sameWithin_succ hb).mpr ⟨ha, hu, hm.trans (fun _ _ _ => ih) hm'⟩

theorem Within.part (hv : h.Within (n + 1) v) {step : Step} (hw : h.part? v step = some w) :
    h.Within n w := by
  obtain ⟨c, hc, hmem⟩ := inside_of_part hw
  exact hv c hc w hmem

theorem Within.part?_ne (hv : h.Within 0 v) (step : Step) (w : Value) :
    h.part? v step ≠ some w := by
  intro hw
  obtain ⟨c, hc, -⟩ := inside_of_part hw
  rw [show v.collection? = none from hv] at hc
  cases hc

/-- Looking deeper than both values are changes nothing. -/
theorem sameWithin_deeper (hb : h.HashesBuilt) (ha : h.Within n a) (hb' : h.Within n b) :
    h.SameWithin (n + 2) a b ↔ h.SameWithin (n + 1) a b := by
  induction n generalizing a b with
  | zero =>
    rw [sameWithin_succ hb, sameWithin_succ hb]
    refine and_congr_right fun _ => and_congr_right fun _ => ⟨fun hm => ?_, fun hm => ?_⟩ <;>
      exact hm.imp fun step x _ hx => absurd hx (ha.part?_ne step x)
  | succ n ih =>
    rw [sameWithin_succ hb, sameWithin_succ hb]
    refine and_congr_right fun _ => and_congr_right fun _ => ⟨fun hm => ?_, fun hm => ?_⟩
    · exact hm.imp fun _ _ _ hx hy => (ih (ha.part hx) (hb'.part hy)).mp
    · exact hm.imp fun _ _ _ hx hy => (ih (ha.part hx) (hb'.part hy)).mpr

/-- A value that can be compared: it holds no float and no signal, and nothing in it contains
itself. -/
structure Comparable (h : Heap) (v : Value) : Prop where
  held : h.Held v
  acyclic : h.Acyclic v
  discrete : h.Throughout Value.Discrete v

theorem Comparable.within (hv : h.Comparable v) : h.Within h.size v := by
  refine hv.acyclic.within hv.held ?_
  exact (Set.ncard_le_ncard (show {c | h.Reaches v c} ⊆ {c | h.Has c} from hv.held)
    h.finite_has.1).trans h.finite_has.2

theorem equals_self (hv : v.Discrete) : h.equals v v = true := by
  cases v with
  | float x => exact absurd rfl hv.1
  | error fault | returning value | breaking => exact absurd hv.2 (by simp [Value.isSignal])
  | _ => simp [equals, equalsWithin, equalsBy]

/-- The comparison goes all the way down: below each level it is the comparison itself. -/
theorem equals_eq (hb : h.HashesBuilt) (ha : h.Comparable a) (hb' : h.Comparable b) :
    h.equals a b = h.equalsBy h.equals a b := by
  have hdeeper := sameWithin_deeper hb ha.within hb'.within
  rw [Bool.eq_iff_iff]
  constructor
  · intro hsame
    exact (hdeeper.mpr ⟨ha.discrete, hb'.discrete, hsame⟩).same
  · intro hsame
    exact (hdeeper.mp ⟨ha.discrete, hb'.discrete, hsame⟩).same

theorem Comparable.part (hv : h.Comparable v) {step : Step} (hw : h.part? v step = some w) :
    h.Comparable w := by
  obtain ⟨c, hc, hmem⟩ := inside_of_part hw
  exact ⟨hv.held.inside hc hmem, hv.acyclic.inside hc hmem, hv.discrete.part hw⟩

theorem equals_symm (hb : h.HashesBuilt) (ha : h.Comparable a) (hb' : h.Comparable b)
    (hsame : h.equals a b = true) : h.equals b a = true :=
  (SameWithin.symm hb ⟨ha.discrete, hb'.discrete, hsame⟩).same

theorem equals_trans (hb : h.HashesBuilt) (ha : h.Comparable a) (hb' : h.Comparable b)
    (hu : h.Comparable u) (hab : h.equals a b = true) (hbu : h.equals b u = true) :
    h.equals a u = true :=
  (SameWithin.trans hb ⟨ha.discrete, hb'.discrete, hab⟩ ⟨hb'.discrete, hu.discrete, hbu⟩).same

/-- Values are the same exactly if they match, part by part. -/
theorem equals_iff_matches (hb : h.HashesBuilt) (ha : h.Comparable a) (hb' : h.Comparable b) :
    h.equals a b = true ↔ h.Matches (fun x y => h.equals x y = true) a b := by
  rw [equals_eq hb ha hb']
  constructor
  · intro hsame
    refine (matches_of_equalsBy hb hsame ?_).resolve_right
      (ha.discrete.1.not_sameNumber hb'.discrete.1)
    exact fun step x y hx hy => ⟨id, equals_symm hb (hb'.part hy) (ha.part hx)⟩
  · intro hm
    refine equalsBy_of_matches hb ha.discrete.1 hm ?_
    exact fun step x y hx hy hxy => ⟨hxy, equals_symm hb (ha.part hx) (hb'.part hy) hxy⟩

/-! ## The order of the entries -/

/-- The same collections, but for the order of the entries in hashes. -/
structure Reordered (h h' : Heap) : Prop where
  arrays : h'.arrays = h.arrays
  size : h'.hashes.size = h.hashes.size
  entries : ∀ id, (h'.hash id).entries.Perm (h.hash id).entries

theorem Reordered.equalsWithin (hr : h.Reordered h') (hb : h.HashesBuilt) (n : Nat) :
    h'.equalsWithin n = h.equalsWithin n := by
  induction n with
  | zero => rfl
  | succ n ih =>
    have harray : ∀ id, h'.array id = h.array id := by
      intro id
      unfold Heap.array
      rw [hr.arrays]
    funext a b
    simp only [Heap.equalsWithin, ih]
    unfold equalsBy
    split
    case h_9 i j =>
      rw [HashObject.sameBy_perm (hb.distinct j) (hr.entries i) (hr.entries j)]
    all_goals simp only [harray]

theorem Reordered.equals (hr : h.Reordered h') (hb : h.HashesBuilt) (a b : Value) :
    h'.equals a b = h.equals a b := by
  have hsize : h'.size = h.size := by
    unfold Heap.size
    rw [hr.arrays, hr.size]
  unfold Heap.equals
  rw [hsize, hr.equalsWithin hb]

/-- Hashes with the same entries in another order are the same. -/
theorem equals_of_perm (hb : h.HashesBuilt) {i j : HashId} (hi : h.Comparable (.hash i))
    (hj : h.Comparable (.hash j)) (hp : (h.hash i).entries.Perm (h.hash j).entries) :
    h.equals (.hash i) (.hash j) = true := by
  refine (equals_iff_matches hb hi hj).mpr (.hashes fun step => ?_)
  have hsame : h.part? (.hash i) step = h.part? (.hash j) step := by
    cases step with
    | element n => rfl
    | entry k => simp only [part?, HashObject.value?, HashObject.get?_perm (hb.distinct j) hp]
  rw [hsame]
  cases hx : h.part? (.hash j) step with
  | none => exact .none
  | some x => exact .some (equals_self (hj.discrete.part hx).1)

/-! ## Copies -/

theorem Matches.discrete (hm : h.Matches R a b) (ha : a.Discrete) : b.Discrete := by
  cases hm with
  | self => exact ha
  | arrays _ | hashes _ => exact ⟨by simp [Value.kind], rfl⟩

/-- What is no collection unfolds to itself. -/
theorem unfolding_leaf (hv : v.collection? = none) : h.unfolding (n + 1) v = .leaf v := by
  cases v with
  | array id | hash id => cases hv
  | _ => rfl

/-- Hashes with the same keys, whose values have the same trees, agree under every key. -/
theorem value?_of_unfolding (hb : h.HashesBuilt) {i j : HashId}
    (hu : (h.hash i).entries.map (fun e => (e.key, h.unfolding n e.value)) =
      (h.hash j).entries.map (fun e => (e.key, h.unfolding n e.value))) (k : HashKey) :
    Option.Rel (fun x y => h.unfolding n x = h.unfolding n y) ((h.hash i).value? k)
      ((h.hash j).value? k) := by
  refine HashObject.value?_of_forall₂ (List.forall₂_iff_zip.mpr ?_) k
  obtain ⟨hlength, hpairs⟩ := List.forall₂_iff_zip.mp (List.forall₂_map_left_iff.mp
    (List.forall₂_map_right_iff.mp (List.forall₂_eq_eq_eq ▸ hu)))
  refine ⟨hlength, fun {e e'} hmem => ?_⟩
  obtain ⟨he, he'⟩ := List.of_mem_zip hmem
  obtain ⟨hkey, hvalue⟩ := Prod.mk.inj (hpairs hmem)
  refine ⟨Option.some.inj ?_, hvalue⟩
  rw [← hb.keyed he, ← hb.keyed he', hkey]

/-- Values with the same tree match. -/
theorem matches_of_unfolding (hb : h.HashesBuilt)
    (hu : h.unfolding (n + 1) a = h.unfolding (n + 1) b) :
    h.Matches (fun x y => h.unfolding n x = h.unfolding n y) a b := by
  cases hc : a.collection? with
  | none =>
    rw [unfolding_leaf hc] at hu
    cases b with
    | array j | hash j => cases hu
    | _ =>
      rw [Unfolding.leaf.inj hu]
      exact .self
  | some c =>
    cases a with
    | array i =>
      cases b with
      | array j =>
        refine .arrays fun step => ?_
        cases step with
        | entry k => exact .none
        | element m =>
          have hm := congrArg (fun us => us[m]?) (Unfolding.array.inj hu)
          simp only [List.getElem?_map, Array.getElem?_toList] at hm
          simp only [part?]
          cases hx : (h.array i)[m]? <;> cases hy : (h.array j)[m]? <;> simp_all
      | _ => cases hu
    | hash i =>
      cases b with
      | hash j =>
        refine .hashes fun step => ?_
        cases step with
        | element m => exact .none
        | entry k => exact value?_of_unfolding hb (Unfolding.hash.inj hu) k
      | _ => cases hu
    | _ => cases hc

/-- Values that match are found to be the same whichever is compared with the other. -/
theorem equalsBy_both_of_matches (hb : h.HashesBuilt) (ha : a.Discrete) (hm : h.Matches R a b)
    (hR : ∀ step x y, h.part? a step = some x → h.part? b step = some y → R x y →
      nested x y = true ∧ nested y x = true) :
    h.equalsBy nested a b = true ∧ h.equalsBy nested b a = true := by
  refine ⟨equalsBy_of_matches hb ha hm hR, equalsBy_of_matches hb (hm.discrete ha) hm.symm ?_⟩
  exact fun step y x hy hx hxy => (hR step x y hx hy hxy).symm

/-- A value is the same as one with the same tree. -/
theorem equalsWithin_of_unfolding (hb : h.HashesBuilt) (ha : h.Throughout Value.Discrete a)
    (hw : h.Within n a) (hu : h.unfolding (n + 1) a = h.unfolding (n + 1) b) :
    h.equalsWithin (n + 1) a b = true ∧ h.equalsWithin (n + 1) b a = true := by
  induction n generalizing a b with
  | zero =>
    refine equalsBy_both_of_matches hb ha.1 (matches_of_unfolding hb hu) ?_
    exact fun step x _ hx => absurd hx (hw.part?_ne step x)
  | succ n ih =>
    refine equalsBy_both_of_matches hb ha.1 (matches_of_unfolding hb hu) ?_
    exact fun step x y hx _ hxy => ih (ha.part hx) (hw.part hx) hxy

theorem AgreesOn.acyclic (ha : h.AgreesOn h' v) (hv : h.Acyclic v) : h'.Acyclic v := by
  intro c hr hcycle
  have hreached := ha.reaches_iff.mp hr
  have hpath : ∀ d, Relation.TransGen h'.Contains c d →
      h.Reaches v d ∧ Relation.TransGen h.Contains c d := by
    intro d hd
    induction hd with
    | single hstep =>
      have hstep' := hstep.of_contents (ha c hreached).symm
      exact ⟨hreached.tail hstep', .single hstep'⟩
    | tail _ hstep ih =>
      have hstep' := hstep.of_contents (ha _ ih.1).symm
      exact ⟨ih.1.tail hstep', ih.2.tail hstep'⟩
  exact hv c hreached (hpath c hcycle).2

theorem AgreesOn.throughout {P : Value → Prop} (ha : h.AgreesOn h' v) (hv : h.Throughout P v) :
    h'.Throughout P v := by
  refine ⟨hv.1, fun c hr w hw => ?_⟩
  have hreached := ha.reaches_iff.mp hr
  have hsame : h'.inside c = h.inside c := by
    unfold Heap.inside
    rw [ha c hreached]
  exact hv.2 c hreached w (hsame ▸ hw)

/-- What can be compared can still be compared when collections are added. -/
theorem Comparable.extends (hv : h.Comparable v) (he : h.Extends h') : h'.Comparable v := by
  have ha := he.agreesOn hv.held
  exact ⟨he.held hv.held, ha.acyclic hv.acyclic, ha.throughout hv.discrete⟩

theorem HashesBuilt.copy (hb : h.HashesBuilt) (v : Value) : (h.copy v).2.HashesBuilt := by
  have hedits : Edits #[] h (h.copy v).2 := MadeOfEdits.copyWithin (h.size + 1) h v
  exact hb.edits (by simp) hedits

/-- A value is the same as its copy. -/
theorem equals_copy (hb : h.HashesBuilt) (hv : h.Comparable v) :
    (h.copy v).2.equals v (h.copy v).1 = true ∧ (h.copy v).2.equals (h.copy v).1 v = true := by
  have hsound : h.Sound v := ⟨hv.held, fun id _ => hb.hash id⟩
  obtain ⟨hextends, hcopy⟩ := makesCopies_copyWithin (h.size + 1) h v (hsound.ready hv.acyclic)
  have hv' := hv.extends hextends
  refine equalsWithin_of_unfolding (hb.copy v) hv'.discrete hv'.within ?_
  exact ((hextends.agreesOn hv.held).unfolding _).trans (hcopy.same _).symm

/-! ## The law -/

/-- The operators `==` and `!=` compare integers and strings in a way of their own, which comes to
the same. -/
theorem binary_equal (ha : a.Discrete) (hb : b.Discrete) :
    Operation.binary h .equal a b = .boolean (h.equals a b) ∧
      Operation.binary h .notEqual a b = .boolean (!h.equals a b) := by
  simp only [Operation.binary]
  split
  · exact ⟨rfl, rfl⟩
  · exact absurd rfl hb.1
  · exact absurd rfl ha.1
  · exact absurd rfl ha.1
  · exact ⟨rfl, rfl⟩
  · exact ⟨rfl, rfl⟩

end Heap

/-- Among values without floats, signals and cycles, being the same is an equivalence: it is
decided by what the values are and, for collections, by what is inside, not by the order in which
the entries of hashes came in. A copy is the same as what it copies, and `==` and `!=` tell
whether values are the same. -/
theorem equality_is_equivalence {h : Heap} (hb : h.HashesBuilt) :
    Equivalence (fun a b : {v : Value // h.Comparable v} => h.equals a b = true) ∧
    (∀ a b, h.Comparable a → h.Comparable b →
      (h.equals a b = true ↔ h.Matches (fun x y => h.equals x y = true) a b) ∧
      Operation.binary h .equal a b = .boolean (h.equals a b) ∧
      Operation.binary h .notEqual a b = .boolean (!h.equals a b)) ∧
    (∀ h', h.Reordered h' → ∀ a b, h'.equals a b = h.equals a b) ∧
    (∀ i j, h.Comparable (.hash i) → h.Comparable (.hash j) →
      (h.hash i).entries.Perm (h.hash j).entries → h.equals (.hash i) (.hash j) = true) ∧
    ∀ a, h.Comparable a →
      (h.copy a).2.equals a (h.copy a).1 = true ∧ (h.copy a).2.equals (h.copy a).1 a = true := by
  refine ⟨⟨?_, ?_, ?_⟩, ?_, ?_, ?_, ?_⟩
  · exact fun a => Heap.equals_self a.2.discrete.1
  · exact fun {a b} hab => Heap.equals_symm hb a.2 b.2 hab
  · exact fun {a b c} hab hbc => Heap.equals_trans hb a.2 b.2 c.2 hab hbc
  · intro a b ha hb'
    exact ⟨Heap.equals_iff_matches hb ha hb', Heap.binary_equal ha.discrete.1 hb'.discrete.1⟩
  · exact fun h' hr => hr.equals hb
  · exact fun i j => Heap.equals_of_perm hb
  · exact fun a => Heap.equals_copy hb

/-- Where collections hold only others that are there, of a lower rank, and neither floats nor
signals, everything can be compared. -/
theorem Heap.comparable_of_rank {h : Heap} (rank : Collection → Nat)
    (hinside : ∀ c, ∀ w ∈ h.inside c,
      w.Discrete ∧ ∀ d, w.collection? = some d → h.Has d ∧ rank d < rank c)
    {v : Value} (hv : v.Discrete) (hhas : ∀ c, v.collection? = some c → h.Has c) :
    h.Comparable v := by
  refine ⟨?_, ?_, hv, fun c _ w hw => (hinside c w hw).1⟩
  · rintro c ⟨first, hfirst, hpath⟩
    cases hpath with
    | refl => exact hhas c hfirst
    | tail _ hstep =>
      obtain ⟨w, hw, hd⟩ := hstep
      exact ((hinside _ w hw).2 _ hd).1
  · refine Heap.acyclic_of_rank rank ?_ v
    rintro c d ⟨w, hw, hd⟩
    exact ((hinside c w hw).2 d hd).2

/-- Arrays stand above the hashes that they hold. -/
def Collection.level : Collection → Nat
  | .array _ => 1
  | .hash _ => 0

/-- Two hashes with the same entries in another order, each in an array. -/
theorem hashes_same_in_another_order :
    let first : HashObject := .after [.insert (.integer 1) .null, .insert (.boolean true) .null]
    let second : HashObject := .after [.insert (.boolean true) .null, .insert (.integer 1) .null]
    let h : Heap := ⟨#[#[.hash ⟨0⟩], #[.hash ⟨1⟩]], #[first, second]⟩
    let h' : Heap := ⟨h.arrays, #[second, second]⟩
    (h.HashesBuilt ∧ h.Comparable (.array ⟨0⟩) ∧ h.Comparable (.array ⟨1⟩) ∧ h.Reordered h' ∧
      h.Comparable (.hash ⟨0⟩) ∧ h.Comparable (.hash ⟨1⟩) ∧
      (h.hash ⟨0⟩).entries.Perm (h.hash ⟨1⟩).entries) ∧
    h.equals (.hash ⟨0⟩) (.hash ⟨1⟩) = true ∧ h.equals (.array ⟨0⟩) (.array ⟨1⟩) = true ∧
    h'.equals (.array ⟨0⟩) (.array ⟨1⟩) = true ∧
    Operation.binary h .equal (.array ⟨0⟩) (.array ⟨1⟩) = .boolean true ∧
    (h.copy (.array ⟨0⟩)).2.equals (.array ⟨0⟩) (h.copy (.array ⟨0⟩)).1 = true := by
  intro first second h h'
  have hbuilt : h.HashesBuilt := by
    intro object hmem
    simp only [h, List.mem_toArray, List.mem_cons, List.not_mem_nil, or_false] at hmem
    rcases hmem with rfl | rfl <;> exact ⟨_, rfl⟩
  have hinside : ∀ c, ∀ w ∈ h.inside c,
      w.Discrete ∧ ∀ d, w.collection? = some d → h.Has d ∧ d.level < c.level := by
    intro c w hw
    rcases c with ⟨_ | _ | i⟩ | ⟨_ | _ | i⟩
    · obtain rfl : w = .hash ⟨0⟩ := List.mem_singleton.mp hw
      refine ⟨⟨by decide, rfl⟩, ?_⟩
      rintro d ⟨⟩
      exact ⟨by simp [Heap.Has, h], by decide⟩
    · obtain rfl : w = .hash ⟨1⟩ := List.mem_singleton.mp hw
      refine ⟨⟨by decide, rfl⟩, ?_⟩
      rintro d ⟨⟩
      exact ⟨by simp [Heap.Has, h], by decide⟩
    · cases hw
    · have hmem : w ∈ [.boolean true, .null, .integer 1, .null] := hw
      simp only [List.mem_cons, List.not_mem_nil, or_false] at hmem
      rcases hmem with rfl | rfl | rfl | rfl <;>
        exact ⟨⟨by decide, rfl⟩, fun d hd => by cases hd⟩
    · have hmem : w ∈ [.integer 1, .null, .boolean true, .null] := hw
      simp only [List.mem_cons, List.not_mem_nil, or_false] at hmem
      rcases hmem with rfl | rfl | rfl | rfl <;>
        exact ⟨⟨by decide, rfl⟩, fun d hd => by cases hd⟩
    · cases hw
  have hcomparable : ∀ v, v.Discrete → (∀ c, v.collection? = some c → h.Has c) →
      h.Comparable v := fun v => Heap.comparable_of_rank Collection.level hinside
  have harray : ∀ i < 2, h.Comparable (.array ⟨i⟩) := by
    intro i hi
    refine hcomparable _ ⟨by simp [Value.kind], rfl⟩ ?_
    rintro c ⟨⟩
    exact hi
  have hhash : ∀ i < 2, h.Comparable (.hash ⟨i⟩) := by
    intro i hi
    refine hcomparable _ ⟨by simp [Value.kind], rfl⟩ ?_
    rintro c ⟨⟩
    exact hi
  have hperm : (h.hash ⟨0⟩).entries.Perm (h.hash ⟨1⟩).entries := List.Perm.swap _ _ _
  have hreordered : h.Reordered h' := by
    refine ⟨rfl, rfl, ?_⟩
    rintro ⟨_ | _ | i⟩
    · exact hperm.symm
    · exact .refl _
    · exact .refl _
  obtain ⟨-, hlaws, horder, hentries, hcopy⟩ := equality_is_equivalence hbuilt
  have hhashes := hentries _ _ (hhash 0 (by decide)) (hhash 1 (by decide)) hperm
  obtain ⟨hmatches, hequal, -⟩ := hlaws _ _ (harray 0 (by decide)) (harray 1 (by decide))
  have harrays : h.equals (.array ⟨0⟩) (.array ⟨1⟩) = true := by
    refine hmatches.mpr (.arrays fun step => ?_)
    rcases step with (_ | i) | k
    · exact .some hhashes
    · exact .none
    · exact .none
  refine ⟨⟨hbuilt, harray 0 (by decide), harray 1 (by decide), hreordered, hhash 0 (by decide),
    hhash 1 (by decide), hperm⟩, hhashes, harrays, ?_, ?_, (hcopy _ (harray 0 (by decide))).1⟩
  · rw [horder h' hreordered, harrays]
  · rw [hequal, harrays]

end ScriptLang
