-- Copies. A copy of a value that does not contain itself is made of new collections only and
-- unfolds to the same tree, so nothing that happens to the copy is seen through the value, and
-- nothing that happens to the value is seen through the copy.
import Mathlib.Data.Set.Card
import ScriptLang.Proofs.Apart

namespace ScriptLang

open Relation

/-! ## Trees -/

/-- What a value unfolds to. The keys of hashes are no collections. -/
inductive Unfolding where
  | leaf (value : Value)
  | array (items : List Unfolding)
  | hash (pairs : List (Value × Unfolding))
  /-- What lies deeper than one looks. -/
  | cut

namespace Heap

/-- The tree of a value so many levels deep. -/
def unfolding (h : Heap) : Nat → Value → Unfolding
  | 0, _ => .cut
  | depth + 1, .array id => .array ((h.array id).toList.map (h.unfolding depth))
  | depth + 1, .hash id =>
    .hash ((h.hash id).entries.map fun e => (e.key, h.unfolding depth e.value))
  | _ + 1, other => .leaf other

/-- A value is so deep at most: below it are so many collections inside each other. -/
def Within (h : Heap) : Nat → Value → Prop
  | 0, v => v.collection? = none
  | depth + 1, v => ∀ c, v.collection? = some c → ∀ w ∈ h.inside c, h.Within depth w

variable {h h' : Heap} {v w : Value} {c d : Collection}

theorem unfolding_of_none (hv : v.collection? = none) (h h' : Heap) (n : Nat) :
    h'.unfolding n v = h.unfolding n v := by
  cases n with
  | zero => rfl
  | succ n =>
    cases v with
    | array id => cases hv
    | hash id => cases hv
    | _ => rfl

/-- A value has the same tree in heaps that agree on what it reaches. -/
theorem AgreesOn.unfolding (ha : h.AgreesOn h' v) (n : Nat) :
    h'.unfolding n v = h.unfolding n v := by
  induction n generalizing v with
  | zero => rfl
  | succ n ih =>
    cases v with
    | array id =>
      have hsame : h'.array id = h.array id := Sum.inl.inj (ha (.array id) (.self rfl))
      simp only [Heap.unfolding, hsame, Unfolding.array.injEq]
      exact List.map_congr_left fun w hw => ih (ha.inside (c := .array id) rfl hw)
    | hash id =>
      have hsame : h'.hash id = h.hash id := Sum.inr.inj (ha (.hash id) (.self rfl))
      simp only [Heap.unfolding, hsame, Unfolding.hash.injEq]
      refine List.map_congr_left fun e he => ?_
      rw [ih (ha.inside (c := .hash id) rfl (mem_inside_hash.mpr ⟨e, he, Or.inr rfl⟩))]
    | _ => rfl

theorem AgreesOn.within (ha : h.AgreesOn h' v) {depth : Nat} (hw : h.Within depth v) :
    h'.Within depth v := by
  induction depth generalizing v with
  | zero => exact hw
  | succ depth ih =>
    intro c hc w hmem
    rw [ha.inside_eq hc] at hmem
    exact ih (ha.inside hc hmem) (hw c hc w hmem)

/-! ## Depth -/

/-- No collection that a value reaches contains itself. -/
def Acyclic (h : Heap) (v : Value) : Prop :=
  ∀ c, h.Reaches v c → ¬TransGen h.Contains c c

theorem Acyclic.inside (ha : h.Acyclic v) (hv : v.collection? = some c) (hw : w ∈ h.inside c) :
    h.Acyclic w := fun d hr => ha d (.head hv hw hr)

/-- A collection that does not contain itself is not reached from inside. -/
theorem Acyclic.not_reaches (ha : h.Acyclic v) (hv : v.collection? = some c)
    (hw : w ∈ h.inside c) : ¬h.Reaches w c := by
  rintro ⟨d, hd, hpath⟩
  exact ha c (.self hv) (.head' ⟨w, hw, hd⟩ hpath)

/-- A heap has no more collections than its size says. -/
theorem finite_has (h : Heap) : {c | h.Has c}.Finite ∧ {c | h.Has c}.ncard ≤ h.size := by
  let arrays : Finset Collection :=
    (Finset.range h.arrays.size).image fun i => .array ⟨i⟩
  let hashes : Finset Collection :=
    (Finset.range h.hashes.size).image fun i => .hash ⟨i⟩
  have hsub : {c | h.Has c} ⊆ (arrays ∪ hashes : Finset Collection) := by
    intro c hc
    cases c with
    | array id =>
      simp only [Finset.coe_union, Set.mem_union, arrays, hashes]
      exact Or.inl (Finset.mem_coe.mpr (Finset.mem_image.mpr
        ⟨id.index, Finset.mem_range.mpr hc, rfl⟩))
    | hash id =>
      simp only [Finset.coe_union, Set.mem_union, arrays, hashes]
      exact Or.inr (Finset.mem_coe.mpr (Finset.mem_image.mpr
        ⟨id.index, Finset.mem_range.mpr hc, rfl⟩))
  refine ⟨(Finset.finite_toSet _).subset hsub, ?_⟩
  calc {c | h.Has c}.ncard ≤ (arrays ∪ hashes).card := by
        rw [← Set.ncard_coe_finset]
        exact Set.ncard_le_ncard hsub (Finset.finite_toSet _)
    _ ≤ arrays.card + hashes.card := Finset.card_union_le _ _
    _ ≤ h.arrays.size + h.hashes.size := by
        refine Nat.add_le_add ?_ ?_ <;> exact Finset.card_image_le.trans (by simp)

/-- A value that does not contain itself is at most as deep as it reaches collections: from
inside, it reaches at least one less. -/
theorem Acyclic.within (ha : h.Acyclic v) (hh : h.Held v) {depth : Nat}
    (hcard : {c | h.Reaches v c}.ncard ≤ depth) : h.Within depth v := by
  have hfinite : ∀ {v}, h.Held v → {c | h.Reaches v c}.Finite := fun hv =>
    h.finite_has.1.subset hv
  induction depth generalizing v with
  | zero =>
    cases hv : v.collection? with
    | none => exact hv
    | some c =>
      have hempty := (Set.ncard_eq_zero (hfinite hh)).mp (Nat.le_zero.mp hcard)
      have hmem : c ∈ {c | h.Reaches v c} := .self hv
      rw [hempty] at hmem
      exact hmem.elim
  | succ depth ih =>
    intro c hc w hw
    refine ih (ha.inside hc hw) (hh.inside hc hw) ?_
    have hless : {d | h.Reaches w d}.ncard < {d | h.Reaches v d}.ncard := by
      refine Set.ncard_lt_ncard ⟨fun d hd => .head hc hw hd, ?_⟩ (hfinite hh)
      intro hsub
      exact ha.not_reaches hc hw (hsub (.self hc))
    omega

/-! ## Copies -/

/-- Every collection that a value reaches has come in since. -/
def Fresh (h h' : Heap) (v : Value) : Prop := ∀ c, h'.Reaches v c → ¬h.Has c ∧ h'.Has c

/-- A value in one heap is a copy of a value in another one: its collections are new, and its tree
is the same. -/
structure CopyOf (h h' : Heap) (v v' : Value) : Prop where
  fresh : h.Fresh h' v'
  same : ∀ n, h'.unfolding n v' = h.unfolding n v

theorem CopyOf.of_none (hv : v.collection? = none) (h h' : Heap) : h.CopyOf h' v v :=
  ⟨fun _ hr => absurd hr (Heap.not_reaches hv), unfolding_of_none hv h h'⟩

theorem CopyOf.held {v' : Value} (hc : h.CopyOf h' v v') : h'.Held v' := fun c hr =>
  (hc.fresh c hr).2

/-- A copy stays one when collections are added. -/
theorem CopyOf.extends {h'' : Heap} {v' : Value} (hc : h.CopyOf h' v v') (he : h'.Extends h'') :
    h.CopyOf h'' v v' := by
  have ha := he.agreesOn hc.held
  refine ⟨?_, ?_⟩
  · intro c hr
    obtain ⟨hnew, hhas⟩ := hc.fresh c (ha.reaches_iff.mp hr)
    exact ⟨hnew, (he c hhas).1⟩
  · intro n
    rw [ha.unfolding, hc.same]

/-- A copy of what a value was after other collections had been added is a copy of what it was
before. -/
theorem CopyOf.since {h₀ : Heap} {v' : Value} (hc : h.CopyOf h' v v') (he : h₀.Extends h)
    (hv : h₀.Held v) : h₀.CopyOf h' v v' := by
  refine ⟨?_, ?_⟩
  · intro c hr
    obtain ⟨hnew, hhas⟩ := hc.fresh c hr
    exact ⟨fun hold => hnew (he c hold).1, hhas⟩
  · intro n
    rw [hc.same, (he.agreesOn hv).unfolding]

/-- A value of a program: the collections that it reaches are there, and the hashes among them
have a history. -/
structure Sound (h : Heap) (v : Value) : Prop where
  held : h.Held v
  built : ∀ id, h.Reaches v (.hash id) → (h.hash id).Built

theorem Sound.inside (hs : h.Sound v) (hv : v.collection? = some c) (hw : w ∈ h.inside c) :
    h.Sound w :=
  ⟨hs.held.inside hv hw, fun id hr => hs.built id (.head hv hw hr)⟩

/-- A value that a copy of so many levels gets to the bottom of. -/
structure Ready (depth : Nat) (h : Heap) (v : Value) : Prop extends h.Sound v where
  within : h.Within depth v

theorem Ready.extends {depth : Nat} (hr : Ready depth h v) (he : h.Extends h') :
    Ready depth h' v := by
  have ha := he.agreesOn hr.held
  refine ⟨⟨he.held hr.held, ?_⟩, ha.within hr.within⟩
  intro id hid
  have hid' := ha.reaches_iff.mp hid
  have hsame : h'.hash id = h.hash id := Sum.inr.inj (ha _ hid')
  rw [hsame]
  exact hr.built id hid'

theorem Ready.inside {depth : Nat} (hr : Ready (depth + 1) h v) (hv : v.collection? = some c)
    (hw : w ∈ h.inside c) : Ready depth h w :=
  ⟨hr.toSound.inside hv hw, hr.within c hv w hw⟩

/-- A way of copying that copies the values it is meant for. -/
def MakesCopies (Fit : Heap → Value → Prop) (copy : Heap → Value → Value × Heap) : Prop :=
  ∀ h v, Fit h v → h.Extends (copy h v).2 ∧ h.CopyOf (copy h v).2 v (copy h v).1

section Parts

variable {depth : Nat} {copy : Heap → Value → Value × Heap}

/-- Values in a row are copied one after the other. They all are copies of what the values were
before the first of them was copied. -/
theorem MakesCopies.list (hcopy : MakesCopies (Ready depth) copy) {h₀ : Heap}
    (he : h₀.Extends h) (vs : List Value) (hvs : ∀ v ∈ vs, Ready depth h₀ v) :
    h.Extends (copyList copy h vs).2 ∧
      List.Forall₂ (h₀.CopyOf (copyList copy h vs).2) vs (copyList copy h vs).1 := by
  induction vs generalizing h with
  | nil => exact ⟨.refl h, .nil⟩
  | cons v vs ih =>
    have hv := hvs v List.mem_cons_self
    obtain ⟨hfirst, hcopied⟩ := hcopy h v (hv.extends he)
    obtain ⟨hothers, hcopies⟩ :=
      ih (he.trans hfirst) fun w hw => hvs w (List.mem_cons_of_mem _ hw)
    exact ⟨hfirst.trans hothers, .cons ((hcopied.since he hv.held).extends hothers) hcopies⟩

/-- Copying the entries of a hash that has a history copies its values, and leaves the rest. -/
theorem copyEntries_eq (depth : Nat) (h : Heap) (object : HashObject) {es : List HashEntry}
    (hk : ∀ e ∈ es, HashKey.of? e.key = some e.hashKey)
    (hd : (object.hashKeys ++ es.map HashEntry.hashKey).Nodup) :
    copyEntries (copyWithin depth) h object es =
      (⟨object.entries ++ List.zipWith (fun e v => ⟨e.hashKey, e.key, v⟩) es
          (copyList (copyWithin depth) h (es.map HashEntry.value)).1⟩,
        (copyList (copyWithin depth) h (es.map HashEntry.value)).2) := by
  induction es generalizing h object with
  | nil => simp [copyEntries, copyList]
  | cons e es ih =>
    have hkey := hk e List.mem_cons_self
    have hnew : e.hashKey ∉ object.hashKeys := by
      intro hmem
      exact (List.nodup_append.mp hd).2.2 _ hmem _ (by simp) rfl
    have hinsert : ∀ v, object.insert e.key v = ⟨object.entries ++ [⟨e.hashKey, e.key, v⟩]⟩ := by
      intro v
      have hput : HashObject.put ⟨e.hashKey, e.key, v⟩ object.entries =
          object.entries ++ [⟨e.hashKey, e.key, v⟩] := HashObject.put_of_notMem hnew
      rw [HashObject.insert_of_hashable hkey, hput]
    have hcopied := copyWithin_of_hashable hkey depth h
    simp only [copyEntries, copyList, List.map_cons, hcopied, hinsert]
    rw [ih _ _ (fun e' he' => hk e' (List.mem_cons_of_mem _ he')) (by
      simpa [HashObject.hashKeys] using hd)]
    simp

theorem copyEntries_empty (depth : Nat) (h : Heap) {object : HashObject}
    {changes : List HashChange} (hf : object.Follows changes) :
    copyEntries (copyWithin depth) h .empty object.entries =
      (⟨List.zipWith (fun e v => ⟨e.hashKey, e.key, v⟩) object.entries
          (copyList (copyWithin depth) h (object.entries.map HashEntry.value)).1⟩,
        (copyList (copyWithin depth) h (object.entries.map HashEntry.value)).2) :=
  copyEntries_eq depth h .empty hf.keyed hf.distinct

end Parts

/-! ## New collections of copies -/

section Copied

variable {h₀ : Heap} {vs vs' : List Value}

theorem fresh_of_mem (hcopies : List.Forall₂ (h₀.CopyOf h) vs vs') (hw : w ∈ vs') :
    h₀.Fresh h w := by
  induction hcopies with
  | nil => cases hw
  | cons hcopy _ ih =>
    rcases List.mem_cons.mp hw with rfl | hrest
    · exact hcopy.fresh
    · exact ih hrest

theorem map_unfolding (hcopies : List.Forall₂ (h₀.CopyOf h) vs vs') (n : Nat) :
    vs'.map (h.unfolding n) = vs.map (h₀.unfolding n) := by
  induction hcopies with
  | nil => rfl
  | cons hcopy _ ih => rw [List.map_cons, List.map_cons, hcopy.same, ih]

/-- What names a new collection is fresh if everything inside is. -/
theorem fresh_of_inside (hv : v.collection? = some c) (hc : ¬h₀.Has c ∧ h.Has c)
    (hin : ∀ w ∈ h.inside c, h₀.Fresh h w) : h₀.Fresh h v := by
  intro d hr
  rcases hr.cases with hself | ⟨c', hc', w, hw, hr⟩
  · rw [hv] at hself
    cases hself
    exact hc
  · rw [hv] at hc'
    cases hc'
    exact hin w hw d hr

/-- A new array of copies. -/
theorem newArray_copies (he : h₀.Extends h) (hcopies : List.Forall₂ (h₀.CopyOf h) vs vs') :
    let made := h.newArray vs'.toArray
    h₀.Extends made.2 ∧ h₀.Fresh made.2 (.array made.1) ∧
      ∀ n, made.2.unfolding (n + 1) (.array made.1) = .array (vs.map (h₀.unfolding n)) := by
  intro made
  have hextends : h.Extends made.2 := h.extends_newArray vs'.toArray
  have hcopies' := hcopies.imp fun _ _ hc => hc.extends hextends
  have hitems : (made.2.array made.1).toList = vs' := by simp [made]
  refine ⟨he.trans hextends, ?_, ?_⟩
  · refine fresh_of_inside (c := .array made.1) rfl ⟨?_, ?_⟩ ?_
    · intro hold
      have hlt := (he _ hold).1
      simp [made, newArray, Has] at hlt
    · simp [made, newArray, Has]
    · intro w hw
      rw [mem_inside_array, hitems] at hw
      exact fresh_of_mem hcopies' hw
  · intro n
    simp only [unfolding, hitems, map_unfolding hcopies']

/-- A new hash with copies of the values of another one. -/
theorem newHash_copies (he : h₀.Extends h) {es : List HashEntry}
    (hk : ∀ e ∈ es, HashKey.of? e.key = some e.hashKey)
    (hcopies : List.Forall₂ (h₀.CopyOf h) (es.map HashEntry.value) vs') :
    let made := h.newHash ⟨List.zipWith (fun e v => ⟨e.hashKey, e.key, v⟩) es vs'⟩
    h₀.Extends made.2 ∧ h₀.Fresh made.2 (.hash made.1) ∧
      ∀ n, made.2.unfolding (n + 1) (.hash made.1) =
        .hash (es.map fun e => (e.key, h₀.unfolding n e.value)) := by
  intro made
  have hextends : h.Extends made.2 := h.extends_newHash _
  have hcopies' := hcopies.imp fun _ _ hc => hc.extends hextends
  have hentries : (made.2.hash made.1).entries =
      List.zipWith (fun e v => ⟨e.hashKey, e.key, v⟩) es vs' := by simp [made]
  refine ⟨he.trans hextends, ?_, ?_⟩
  · refine fresh_of_inside (c := .hash made.1) rfl ⟨?_, ?_⟩ ?_
    · intro hold
      have hlt := (he _ hold).1
      simp [made, newHash, Has] at hlt
    · simp [made, newHash, Has]
    · intro w hw
      rw [mem_inside_hash, hentries] at hw
      obtain ⟨e, hmem, hw⟩ := hw
      rw [← List.map_uncurry_zip_eq_zipWith] at hmem
      obtain ⟨⟨old, value⟩, hpair, rfl⟩ := List.mem_map.mp hmem
      obtain ⟨hold, hvalue⟩ := List.of_mem_zip hpair
      rcases hw with rfl | rfl
      · have hkey : old.key.collection? = none := Value.collection?_of_hashable (hk old hold)
        exact fun c hr => absurd hr (not_reaches hkey)
      · exact fresh_of_mem hcopies' hvalue
  · intro n
    simp only [unfolding, hentries, Unfolding.hash.injEq]
    calc _ = List.zipWith (fun e u => (e.key, u)) es (vs'.map (made.2.unfolding n)) := by
          rw [List.zipWith_map_right, List.map_zipWith]
      _ = List.zipWith (fun e u => (e.key, u)) es
            ((es.map HashEntry.value).map (h₀.unfolding n)) := by rw [map_unfolding hcopies']
      _ = _ := by rw [List.map_map, List.zipWith_map_right, List.zipWith_self]; rfl

end Copied

/-- Copying so many levels deep copies every value that is no deeper. The induction is on the
levels; below a hash only its values are copied, because its keys are no collections. -/
theorem makesCopies_copyWithin (depth : Nat) : MakesCopies (Ready depth) (copyWithin depth) := by
  induction depth with
  | zero =>
    intro h v hv
    exact ⟨.refl h, .of_none hv.within h h⟩
  | succ depth ih =>
    intro h v hv
    cases v with
    | array id =>
      obtain ⟨hextends, hcopies⟩ := ih.list (.refl h) (h.array id).toList fun w hw =>
        hv.inside (c := .array id) rfl hw
      obtain ⟨hmade, hfresh, hsame⟩ := newArray_copies hextends hcopies
      refine ⟨hmade, hfresh, ?_⟩
      rintro (_ | n)
      · rfl
      · exact hsame n
    | hash id =>
      obtain ⟨changes, hchanges⟩ := hv.built id (.self rfl)
      have hfollows : (h.hash id).Follows changes := hchanges ▸ HashObject.follows_after changes
      obtain ⟨hextends, hcopies⟩ := ih.list (.refl h)
        ((h.hash id).entries.map HashEntry.value) fun w hw => by
          obtain ⟨e, he, rfl⟩ := List.mem_map.mp hw
          exact hv.inside (c := .hash id) rfl (mem_inside_hash.mpr ⟨e, he, Or.inr rfl⟩)
      obtain ⟨hmade, hfresh, hsame⟩ := newHash_copies hextends hfollows.keyed hcopies
      simp only [copyWithin, copyEntries_empty depth h hfollows]
      refine ⟨hmade, hfresh, ?_⟩
      rintro (_ | n)
      · rfl
      · exact hsame n
    | _ => exact ⟨.refl h, .of_none rfl h h⟩

/-- A value that does not contain itself is no deeper than the heap has collections. -/
theorem Sound.ready (hs : h.Sound v) (ha : h.Acyclic v) : Ready (h.size + 1) h v := by
  refine ⟨hs, ha.within hs.held ?_⟩
  have hcard := Set.ncard_le_ncard (show {c | h.Reaches v c} ⊆ {c | h.Has c} from hs.held)
    h.finite_has.1
  have hsize := h.finite_has.2
  omega

end Heap

/-! ## What the copying functions copy -/

/-- What a function copies: a value, or values that become a new array. -/
inductive Source where
  | one (value : Value)
  | row (values : List Value)

namespace Source

def values : Source → List Value
  | one value => [value]
  | row values => values

def unfolding (h : Heap) (n : Nat) : Source → Unfolding
  | one value => h.unfolding n value
  | row values =>
    match n with
    | 0 => .cut
    | n + 1 => .array (values.map (h.unfolding n))

/-- The copy, and the collections with it. -/
def copy (h : Heap) : Source → Value × Heap
  | one value => h.copy value
  | row values =>
    let copies := Heap.copyList (Heap.copyWithin (h.size + 1)) h values
    let made := copies.2.newArray copies.1.toArray
    (.array made.1, made.2)

end Source

/-- A call of a function that copies. -/
inductive Copying where
  | first
  | last
  | rest
  | push (item : Value)

namespace Copying

def builtin : Copying → Builtin
  | first => .first
  | last => .last
  | rest => .rest
  | push _ => .push

def arguments (id : ArrayId) : Copying → List Value
  | first | last | rest => [.array id]
  | push item => [.array id, item]

/-- What is copied of an array with these elements. -/
def source (items : List Value) : Copying → Source
  | first => .one (items.head?.getD .null)
  | last => .one (items.getLast?.getD .null)
  | rest => if items.isEmpty then .one .null else .row items.tail
  | push item => .row (items ++ [item])

end Copying

theorem Heap.Fresh.separate {h h' : Heap} {result a : Value} (hf : h.Fresh h' result)
    (he : h.Extends h') (ha : h.Held a) : h'.Separate result a := by
  refine ⟨fun c hr => (hf c hr).2, he.held ha, ?_⟩
  intro c hresult harg
  exact (hf c hresult).1 (ha c ((he.agreesOn ha).reaches_iff.mp harg))

/-- Where a rank goes down from each collection to those it holds, none contains itself. -/
theorem Heap.acyclic_of_rank {h : Heap} (rank : Collection → Nat)
    (hrank : ∀ c d, h.Contains c d → rank d < rank c) (v : Value) : h.Acyclic v := by
  have hless : ∀ {c d}, TransGen h.Contains c d → rank d < rank c := by
    intro c d hpath
    induction hpath with
    | single hstep => exact hrank _ _ hstep
    | tail _ hstep ih => exact (hrank _ _ hstep).trans ih
  intro c _ hc
  exact Nat.lt_irrefl _ (hless hc)

end ScriptLang
