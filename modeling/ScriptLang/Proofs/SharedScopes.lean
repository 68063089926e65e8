-- Scopes that are shared. A host makes scopes, holds handles to them, copies the handles, and binds
-- and rebinds names through them. Whatever it does, the way outward from a scope comes to an end,
-- and a name that is rebound is seen through exactly those handles that find it in the same scope.
import Mathlib.Logic.Relation
import ScriptLang.Session
import ScriptLang.Proofs.Bindings

namespace ScriptLang

namespace Scopes

/-! ## The way outward -/

/-- The scope around a scope. -/
def outer? (s : Scopes) (id : ScopeId) : Option ScopeId := s.all[id.index]?.bind Scope.outer

/-- The first scope leads to the second one, which is right around it. -/
def LeadsOut (s : Scopes) (inner outer : ScopeId) : Prop := s.outer? inner = some outer

/-- Going outward from a scope, the first one that binds a name is `owner`. -/
inductive Finds (s : Scopes) (name : String) : ScopeId → ScopeId → Prop where
  | here {id : ScopeId} (h : s.containsLocal id name = true) : Finds s name id id
  | outward {id outer owner : ScopeId} (h : s.containsLocal id name = false)
      (ho : s.LeadsOut id outer) (hf : Finds s name outer owner) : Finds s name id owner

/-- A scope comes after the scope around it. -/
def Ordered (s : Scopes) : Prop := ∀ id outer, s.LeadsOut id outer → outer.index < id.index

variable {s after : Scopes} {id outer owner other : ScopeId} {name key : String} {value : Value}
  {handles : List ScopeId}

theorem Finds.containsLocal (h : s.Finds name id owner) : s.containsLocal owner name = true := by
  induction h with
  | here h => exact h
  | outward _ _ _ ih => exact ih

/-- A name is found in one scope at most. -/
theorem Finds.unique {one two : ScopeId} (h : s.Finds name id one) (h' : s.Finds name id two) :
    one = two := by
  induction h with
  | here hb =>
    cases h' with
    | here => rfl
    | outward hn _ _ => simp [hb] at hn
  | outward hn ho _ ih =>
    cases h' with
    | here hb => simp [hb] at hn
    | outward _ ho' hf' =>
      unfold LeadsOut at ho ho'
      rw [ho] at ho'
      cases ho'
      exact ih hf'

theorem index_lt_of_transGen (h : s.Ordered) (ht : Relation.TransGen s.LeadsOut id outer) :
    outer.index < id.index := by
  induction ht with
  | single hl => exact h _ _ hl
  | tail _ hl ih =>
    have := h _ _ hl
    omega

/-- No scope is around itself. -/
theorem not_transGen_self (h : s.Ordered) (id : ScopeId) :
    ¬Relation.TransGen s.LeadsOut id id := by
  intro ht
  have := index_lt_of_transGen h ht
  omega

/-! ## The search for a name -/

theorem all_of_containsLocal (h : s.containsLocal id name = true) :
    ∃ scope, s.all[id.index]? = some scope := by
  unfold containsLocal local? at h
  split at h
  · exact ⟨_, ‹_›⟩
  · simp at h

/-- The search ends in a scope that binds the name, and else goes on in the scope around it. -/
theorem ownerWithin_succ (name : String) (steps : Nat) (id : ScopeId) :
    s.ownerWithin name (steps + 1) id = if s.containsLocal id name then some id
      else (s.outer? id).bind (s.ownerWithin name steps) := by
  rw [ownerWithin]
  unfold containsLocal local? outer?
  cases s.all[id.index]? with
  | none => simp
  | some scope =>
    by_cases hb : (scope.bindings.lookup name).isSome = true
    · simp [Scope.binds, hb]
    · cases houter : scope.outer <;> simp [Scope.binds, hb, houter]

/-- Only what the scopes around a scope are, and which of them bind the name, decides where the
search ends. -/
theorem ownerWithin_congr (ho : ∀ id, after.outer? id = s.outer? id)
    (hb : ∀ id, after.containsLocal id name = s.containsLocal id name) (steps : Nat)
    (id : ScopeId) : after.ownerWithin name steps id = s.ownerWithin name steps id := by
  induction steps generalizing id with
  | zero => rfl
  | succ steps ih =>
    rw [ownerWithin_succ, ownerWithin_succ, hb, ho, funext ih]

theorem finds_of_ownerWithin {steps : Nat} (h : s.ownerWithin name steps id = some owner) :
    s.Finds name id owner := by
  induction steps generalizing id with
  | zero => simp [ownerWithin] at h
  | succ steps ih =>
    rw [ownerWithin_succ] at h
    split at h
    · rename_i hb
      cases h
      exact .here hb
    · rename_i hn
      obtain ⟨outer, ho, hf⟩ := Option.bind_eq_some_iff.mp h
      exact .outward (by simpa using hn) ho (ih hf)

/-- Steps enough for the scopes before a scope are enough to find what there is to find. The
induction goes outward, and every step of it goes to an earlier scope. -/
theorem Finds.ownerWithin (hs : s.Ordered) (h : s.Finds name id owner) {steps : Nat}
    (hsteps : id.index < steps) : s.ownerWithin name steps id = some owner := by
  induction h generalizing steps with
  | here hb =>
    obtain ⟨steps, rfl⟩ := Nat.exists_eq_succ_of_ne_zero (Nat.ne_zero_of_lt hsteps)
    simp [ownerWithin_succ, hb]
  | outward hn ho _ ih =>
    obtain ⟨steps, rfl⟩ := Nat.exists_eq_succ_of_ne_zero (Nat.ne_zero_of_lt hsteps)
    have hless := hs _ _ ho
    unfold LeadsOut at ho
    simp only [ownerWithin_succ, hn, ho, Bool.false_eq_true, if_false, Option.bind_some]
    apply ih
    omega

/-- The search finds the scope that binds the name first, however far out it is. -/
theorem owner?_eq_some_iff (hs : s.Ordered) :
    s.owner? id name = some owner ↔ s.Finds name id owner :=
  ⟨finds_of_ownerWithin, fun h => h.ownerWithin hs (Nat.lt_succ_self _)⟩

theorem get?_of_finds (hs : s.Ordered) (h : s.Finds name id owner) :
    s.get? id name = s.local? owner name := by
  unfold get?
  rw [(owner?_eq_some_iff hs).mpr h]
  rfl

/-- A name has a value exactly if it is found. -/
theorem get?_isSome_iff (hs : s.Ordered) :
    (s.get? id name).isSome = true ↔ ∃ owner, s.Finds name id owner := by
  constructor
  · intro h
    unfold get? at h
    cases howner : s.owner? id name with
    | none => simp [howner] at h
    | some owner => exact ⟨owner, finds_of_ownerWithin howner⟩
  · rintro ⟨owner, h⟩
    rw [get?_of_finds hs h]
    exact h.containsLocal

theorem ownerWithin_eq_owner? (hs : s.Ordered) {steps : Nat} (hsteps : id.index < steps) :
    s.ownerWithin name steps id = s.owner? id name := by
  apply Option.ext
  intro owner
  rw [owner?_eq_some_iff hs]
  exact ⟨finds_of_ownerWithin, fun h => h.ownerWithin hs hsteps⟩

/-- The value of a name is its value in the scope itself, or else its value in the scope around
it. -/
theorem get?_eq (hs : s.Ordered) (id : ScopeId) (name : String) :
    s.get? id name = (s.local? id name).or ((s.outer? id).bind (s.get? · name)) := by
  unfold get? owner?
  rw [ownerWithin_succ]
  cases hlocal : s.local? id name with
  | some value => simp [containsLocal, hlocal]
  | none =>
    cases ho : s.outer? id with
    | none => simp [containsLocal, hlocal]
    | some outer =>
      have hless : outer.index < id.index := hs id outer ho
      simp [containsLocal, hlocal, ownerWithin_eq_owner? hs hless, owner?]

/-! ## What an operation changes -/

theorem all_getElem?_define (id : ScopeId) (name : String) (value : Value) (i : Nat) :
    (s.define id name value).all[i]? = if id.index = i then
      s.all[i]?.map fun scope => { scope with bindings := Scope.bind name value scope.bindings }
    else s.all[i]? := by
  simp [define, Array.getElem?_modify]

theorem outer?_push (scope : Scope) (id : ScopeId) :
    (⟨s.all.push scope⟩ : Scopes).outer? id =
      if id.index = s.all.size then scope.outer else s.outer? id := by
  unfold outer?
  rw [Array.getElem?_push]
  split <;> rfl

theorem outer?_define (name : String) (value : Value) (other : ScopeId) :
    (s.define id name value).outer? other = s.outer? other := by
  unfold outer?
  rw [all_getElem?_define]
  split
  · cases s.all[other.index]? <;> rfl
  · rfl

theorem lookup_bind (name key : String) (value : Value) (bindings : List (String × Value)) :
    (Scope.bind name value bindings).lookup key =
      if key = name then some value else bindings.lookup key := by
  induction bindings with
  | nil =>
    by_cases hk : key = name
    · simp [Scope.bind, hk]
    · have hne : (key == name) = false := by simpa using hk
      simp [Scope.bind, List.lookup_cons, hk, hne]
  | cons b rest ih =>
    obtain ⟨first, old⟩ := b
    by_cases hk : key = first
    · by_cases hf : first = name <;> simp [Scope.bind, hk, hf]
    · have hne : (key == first) = false := by simpa using hk
      by_cases hf : first = name
      · subst hf
        simp [Scope.bind, List.lookup_cons, hk, hne]
      · simp [Scope.bind, List.lookup_cons, hf, hne, ih]

/-- A definition gives one name of one scope a value. -/
theorem local?_define (h : id.index < s.all.size) (name : String) (value : Value)
    (other : ScopeId) (key : String) :
    (s.define id name value).local? other key =
      if other = id ∧ key = name then some value else s.local? other key := by
  unfold local?
  rw [all_getElem?_define]
  by_cases hid : other = id
  · subst hid
    simp [h, lookup_bind]
  · have hne : id.index ≠ other.index := by
      intro heq
      exact hid (by cases other; cases id; simp_all)
    simp [hid, hne]

/-! ## An assignment -/

theorem index_lt_of_containsLocal (h : s.containsLocal id name = true) :
    id.index < s.all.size := by
  obtain ⟨scope, hscope⟩ := all_of_containsLocal h
  exact (Array.getElem?_eq_some_iff.mp hscope).1

/-- A scope that binds a name already gains nothing by a definition of it. -/
theorem containsLocal_redefine (h : s.containsLocal owner name = true) (value : Value)
    (other : ScopeId) (key : String) :
    (s.define owner name value).containsLocal other key = s.containsLocal other key := by
  unfold containsLocal
  rw [local?_define (index_lt_of_containsLocal h)]
  split
  · rename_i hsame
    obtain ⟨rfl, rfl⟩ := hsame
    exact h.symm
  · rfl

theorem owner?_redefine (h : s.containsLocal owner name = true) (value : Value) (other : ScopeId)
    (key : String) : (s.define owner name value).owner? other key = s.owner? other key := by
  unfold owner?
  apply ownerWithin_congr
  · exact outer?_define name value
  · exact fun id => containsLocal_redefine h value id key

/-- What is read after a name has been given a value in the scope that owns it. -/
theorem get?_redefine (h : s.containsLocal owner name = true) (value : Value) (other : ScopeId)
    (key : String) :
    (s.define owner name value).get? other key =
      if key = name ∧ s.owner? other name = some owner then some value
      else s.get? other key := by
  unfold get?
  rw [owner?_redefine h]
  cases hfound : s.owner? other key with
  | none =>
    have hne : ¬(key = name ∧ s.owner? other name = some owner) := by
      rintro ⟨rfl, hown⟩
      simp [hfound] at hown
    rw [if_neg hne]
    rfl
  | some found =>
    simp only [Option.bind_some]
    rw [local?_define (index_lt_of_containsLocal h)]
    by_cases hkey : key = name
    · subst hkey
      simp [hfound]
    · simp [hkey]

theorem Ordered.define (hs : s.Ordered) (id : ScopeId) (name : String) (value : Value) :
    (s.define id name value).Ordered := by
  intro inner outer hl
  apply hs
  unfold LeadsOut at hl ⊢
  rwa [outer?_define] at hl

/-- What comes of assigning a value to a name through a handle: whether it was done, and the scopes
afterwards. -/
structure Rebinds (s : Scopes) (id : ScopeId) (name : String) (value : Value) (done : Bool)
    (after : Scopes) : Prop where
  done_iff : done = true ↔ ∃ old, s.get? id name = some old
  shared : done = true → ∀ other, (∃ owner, s.Finds name id owner ∧ s.Finds name other owner) →
    after.get? other name = some value
  others : done = true → ∀ other key,
    ¬(key = name ∧ ∃ owner, s.Finds name id owner ∧ s.Finds name other owner) →
    after.get? other key = s.get? other key
  nothing : done = false → after = s
  names : ∀ other key, after.containsLocal other key = s.containsLocal other key

theorem rebinds_assign (hs : s.Ordered) (id : ScopeId) (name : String) (value : Value) :
    s.Rebinds id name value (s.assign? id name value).isSome
      ((s.assign? id name value).getD s) := by
  have hget : (∃ old, s.get? id name = some old) ↔ ∃ owner, s.Finds name id owner := by
    rw [← Option.isSome_iff_exists, get?_isSome_iff hs]
  unfold assign?
  cases howner : s.owner? id name with
  | none =>
    refine ⟨?_, by simp, by simp, by simp, by simp⟩
    rw [hget]
    simp only [Option.map_none, Option.isSome_none, Bool.false_eq_true, false_iff]
    rintro ⟨owner, hf⟩
    simp [(owner?_eq_some_iff hs).mpr hf] at howner
  | some owner =>
    have hf : s.Finds name id owner := finds_of_ownerWithin howner
    have hb := hf.containsLocal
    simp only [Option.map_some, Option.isSome_some, Option.getD_some]
    refine ⟨?_, ?_, ?_, by simp, containsLocal_redefine hb value⟩
    · rw [hget]
      simp only [true_iff]
      exact ⟨owner, hf⟩
    · rintro - other ⟨found, hone, htwo⟩
      rw [hone.unique hf, ← owner?_eq_some_iff hs] at htwo
      rw [get?_redefine hb, if_pos ⟨rfl, htwo⟩]
    · intro _ other key hne
      rw [get?_redefine hb, if_neg]
      rintro ⟨rfl, htwo⟩
      exact hne ⟨rfl, owner, hf, (owner?_eq_some_iff hs).mp htwo⟩

/-! ## Scopes that a host makes -/

/-- The scopes that a host has made, and the handles that it holds. -/
inductive Made : Scopes → List ScopeId → Prop where
  | start : Made .empty []
  | newGlobal {s : Scopes} {handles : List ScopeId} (h : Made s handles) :
      Made s.newGlobal.2 (s.newGlobal.1 :: handles)
  | enclosed {s : Scopes} {handles : List ScopeId} (h : Made s handles) {outer : ScopeId}
      (ho : outer ∈ handles) : Made (s.enclosed outer).2 ((s.enclosed outer).1 :: handles)
  /-- A copy of a handle is a handle to the same scope. -/
  | copy {s : Scopes} {handles : List ScopeId} (h : Made s handles) {id : ScopeId}
      (hid : id ∈ handles) : Made s (id :: handles)
  | define {s : Scopes} {handles : List ScopeId} (h : Made s handles) {id : ScopeId}
      (hid : id ∈ handles) (name : String) (value : Value) :
      Made (s.define id name value) handles
  | assign {s : Scopes} {handles : List ScopeId} (h : Made s handles) {id : ScopeId}
      (hid : id ∈ handles) (name : String) (value : Value) :
      Made ((s.assign? id name value).getD s) handles

theorem size_assign (id : ScopeId) (name : String) (value : Value) :
    ((s.assign? id name value).getD s).all.size = s.all.size := by
  unfold assign?
  cases s.owner? id name <;> simp

/-- A handle names a scope that is there. -/
theorem Made.index_lt (h : Made s handles) : ∀ id ∈ handles, id.index < s.all.size := by
  induction h with
  | start => simp
  | newGlobal _ ih | enclosed _ _ ih =>
    simp only [Scopes.newGlobal, Scopes.enclosed, Array.size_push, List.forall_mem_cons]
    exact ⟨Nat.lt_succ_self _, fun id hid => Nat.lt_succ_of_lt (ih id hid)⟩
  | copy _ hid ih => exact List.forall_mem_cons.mpr ⟨ih _ hid, ih⟩
  | define _ _ name value ih => simpa using ih
  | assign _ _ name value ih => simpa [size_assign] using ih

theorem Ordered.push (hs : s.Ordered) {scope : Scope}
    (h : ∀ outer, scope.outer = some outer → outer.index < s.all.size) :
    (⟨s.all.push scope⟩ : Scopes).Ordered := by
  intro id outer hl
  unfold LeadsOut at hl
  rw [outer?_push] at hl
  split at hl
  · rename_i heq
    rw [heq]
    exact h outer hl
  · exact hs id outer hl

/-- The induction is on what the host did. -/
theorem Made.ordered (h : Made s handles) : s.Ordered := by
  induction h with
  | start =>
    intro id outer hl
    simp [LeadsOut, outer?, Scopes.empty] at hl
  | newGlobal _ ih => exact ih.push (by simp)
  | enclosed h ho ih =>
    apply ih.push
    rintro outer ⟨⟩
    exact h.index_lt _ ho
  | copy _ _ ih => exact ih
  | define _ _ name value ih => exact ih.define _ name value
  | @assign s handles h id hid name value ih =>
    unfold assign?
    cases s.owner? id name with
    | none => exact ih
    | some owner => exact ih.define owner name value

end Scopes

/-! ## The law -/

theorem Session.assign_eq (session : Session) (name : String) (value : Value) :
    let m := session.machine
    let result := m.store.scopes.assign? m.scope name value
    session.assign name value = (result.isSome, { session with machine := { m with
      store := { m.store with scopes := result.getD m.store.scopes } } }) := by
  unfold Session.assign
  dsimp only
  cases session.machine.store.scopes.assign? session.machine.scope name value <;> rfl

/-- However a host makes its scopes, none of them is around itself, so a name is looked up in the
scope itself and else in the scope around it. An assignment rebinds a name if it is found; the new
value is then seen through the handles that find the name in the same scope, and through no others.
No scope gains or loses a name, and an assignment that is not done changes nothing at all. -/
theorem assignment_seen_where_shared {s : Scopes} {handles : List ScopeId}
    (h : s.Made handles) :
    (∀ id, ¬Relation.TransGen s.LeadsOut id id) ∧
    (∀ id name, s.get? id name = (s.local? id name).or ((s.outer? id).bind (s.get? · name))) ∧
    (∀ id name value, s.Rebinds id name value (s.assign? id name value).isSome
      ((s.assign? id name value).getD s)) ∧
    ∀ session : Session, session.machine.store.scopes = s → ∀ name value,
      let result := session.assign name value
      s.Rebinds session.machine.scope name value result.1 result.2.machine.store.scopes ∧
        (result.1 = false → result.2 = session) := by
  have hs := h.ordered
  refine ⟨Scopes.not_transGen_self hs, Scopes.get?_eq hs, Scopes.rebinds_assign hs, ?_⟩
  rintro session rfl name value
  have hrebinds := Scopes.rebinds_assign hs session.machine.scope name value
  rw [Session.assign_eq]
  refine ⟨hrebinds, fun hdone => ?_⟩
  simp only [hrebinds.nothing hdone]

/-- A global scope with a name, a scope inside it with the same name, and a scope inside that. -/
def shadowed : Scopes :=
  let outermost := Scopes.empty.newGlobal.2.define ⟨0⟩ "x" (.integer 1)
  let middle := (outermost.enclosed ⟨0⟩).2.define ⟨1⟩ "x" (.integer 5)
  (middle.enclosed ⟨1⟩).2

/-- The scope in the middle is rebound from the innermost one, and the outermost one keeps its
value. -/
theorem nearest_scope_is_rebound :
    shadowed.Made [⟨2⟩, ⟨1⟩, ⟨0⟩] ∧
      ∃ after, shadowed.assign? ⟨2⟩ "x" (.integer 7) = some after ∧
        after.get? ⟨1⟩ "x" = some (.integer 7) ∧ after.get? ⟨0⟩ "x" = some (.integer 1) := by
  have hglobal : Scopes.empty.newGlobal.2.Made [⟨0⟩] := .newGlobal .start
  have houter := hglobal.define List.mem_cons_self "x" (.integer 1)
  have hinner := houter.enclosed List.mem_cons_self
  have hmiddle := hinner.define List.mem_cons_self "x" (.integer 5)
  have hmade : shadowed.Made [⟨2⟩, ⟨1⟩, ⟨0⟩] := hmiddle.enclosed List.mem_cons_self
  have hown : shadowed.Finds "x" ⟨2⟩ ⟨1⟩ := .outward rfl rfl (.here rfl)
  have hlaw := (assignment_seen_where_shared hmade).2.2.1 ⟨2⟩ "x" (.integer 7)
  refine ⟨hmade, _, rfl, ?_, ?_⟩
  · exact hlaw.shared rfl ⟨1⟩ ⟨⟨1⟩, hown, .here rfl⟩
  · have hother : ¬("x" = "x" ∧ ∃ owner, shadowed.Finds "x" ⟨2⟩ owner ∧
        shadowed.Finds "x" ⟨0⟩ owner) := by
      rintro ⟨-, owner, hone, htwo⟩
      have hsame : (⟨1⟩ : ScopeId) = ⟨0⟩ := (hown.unique hone).trans (htwo.unique (.here rfl))
      exact absurd hsame (by decide)
    exact hlaw.others rfl ⟨0⟩ "x" hother

end ScriptLang
