-- What a step binds. A step of an evaluation makes at most one function and binds at most one
-- name, and it binds it in the innermost scope; all other names stay where they are.
import ScriptLang.Proofs.Quiet

namespace ScriptLang

open Eval

/-! ## Names that are bound -/

namespace Scopes

variable {s : Scopes} {id other : ScopeId} {name : String}

theorem containsLocal_iff : s.containsLocal id name = true ↔
    ∃ scope, s.all[id.index]? = some scope ∧ ∃ b ∈ scope.bindings, b.1 = name := by
  unfold containsLocal local?
  cases s.all[id.index]? with
  | none => simp
  | some scope =>
    simp only [Option.some.injEq, exists_eq_left', List.lookup_isSome_iff, beq_iff_eq]
    exact exists_congr fun b => and_congr_right fun _ => eq_comm

theorem containsLocal_enclosed (outer : ScopeId) :
    (s.enclosed outer).2.containsLocal id name = s.containsLocal id name := by
  unfold containsLocal local? enclosed
  dsimp only
  rw [Array.getElem?_push]
  by_cases h : id.index = s.all.size
  · simp [h]
  · rw [if_neg h]

theorem containsLocal_of_size_le (h : s.all.size ≤ id.index) :
    s.containsLocal id name = false := by
  unfold containsLocal local?
  simp [h]

@[simp] theorem size_define (value : Value) :
    (s.define id name value).all.size = s.all.size := by
  simp [define]

/-- A definition binds one name in one scope. -/
theorem containsLocal_define {key : String} {value : Value}
    (h : (s.define id key value).containsLocal other name = true) :
    s.containsLocal other name = true ∨ other = id ∧ name = key := by
  rw [containsLocal_iff] at h ⊢
  obtain ⟨scope, hscope, b, hb, hname⟩ := h
  simp only [define, Array.getElem?_modify] at hscope
  split at hscope
  · rename_i hid
    obtain ⟨old, hold, rfl⟩ := Option.map_eq_some_iff.mp hscope
    rcases mem_bind hb with rfl | hb
    · exact .inr ⟨by cases other; cases id; simp_all, hname.symm⟩
    · exact .inl ⟨old, hold, b, hb, hname⟩
  · exact .inl ⟨scope, hscope, b, hb, hname⟩

theorem containsLocal_of_ownerWithin {steps : Nat} {owner : ScopeId}
    (h : s.ownerWithin name steps id = some owner) : s.containsLocal owner name = true := by
  fun_induction ownerWithin s name steps id with
  | case1 | case2 | case5 => cases h
  | case3 steps id scope hscope hbinds =>
    cases h
    unfold containsLocal local?
    rw [hscope]
    exact hbinds
  | case4 steps id scope hscope hbinds outer houter ih => exact ih h

end Scopes

/-- Whether a scope itself binds a name. -/
def Machine.Binds (m : Machine) (id : ScopeId) (name : String) : Prop :=
  m.store.scopes.containsLocal id name = true

/-- A fresh state binds nothing. -/
theorem Machine.not_binds_start (host : Host) (sink : Sink) (seed : UInt64) (id : ScopeId)
    (name : String) : ¬(Machine.start host sink seed).Binds id name := by
  intro h
  obtain ⟨scope, hscope, b, hb, -⟩ := Scopes.containsLocal_iff.mp h
  simp only [Machine.start, Scopes.newGlobal, Scopes.empty, Array.getElem?_push] at hscope
  split at hscope
  · cases hscope
    cases hb
  · cases hscope

/-! ## What a step gains -/

/-- From `m` to `after`, the innermost scope gains no names but `names`, and there are no new
functions but `made`. -/
structure Gains (names : List String) (made : List FunctionLiteral) (m after : Machine) :
    Prop where
  scope : after.scope = m.scope
  size : after.store.scopes.all.size = m.store.scopes.all.size
  binds : ∀ id name, after.Binds id name → m.Binds id name ∨ id = m.scope ∧ name ∈ names
  functions : ∀ closure ∈ after.store.definitions.functions,
    closure ∈ m.store.definitions.functions ∨ closure.literal ∈ made

namespace Gains

variable {m between after : Machine} {names more : List String}
  {made others : List FunctionLiteral}

theorem of_eq (hscope : after.scope = m.scope)
    (hscopes : after.store.scopes = m.store.scopes)
    (hfunctions : after.store.definitions.functions = m.store.definitions.functions) :
    Gains names made m after := by
  refine ⟨hscope, by rw [hscopes], fun id name h => .inl ?_, fun closure h => .inl ?_⟩
  · unfold Machine.Binds at h ⊢
    rw [← hscopes]
    exact h
  · rw [← hfunctions]
    exact h

theorem trans (h : Gains names made m between) (h' : Gains more others between after) :
    Gains (names ++ more) (made ++ others) m after := by
  refine ⟨h'.scope.trans h.scope, h'.size.trans h.size, ?_, ?_⟩
  · intro id name hb
    rcases h'.binds id name hb with hb | ⟨hid, hn⟩
    · rcases h.binds id name hb with hb | ⟨hid, hn⟩
      · exact .inl hb
      · exact .inr ⟨hid, List.mem_append_left _ hn⟩
    · exact .inr ⟨hid.trans h.scope, List.mem_append_right _ hn⟩
  · intro closure hc
    rcases h'.functions closure hc with hc | hc
    · exact (h.functions closure hc).imp_right (List.mem_append_left _)
    · exact .inr (List.mem_append_right _ hc)

theorem mono (h : Gains names made m after) (more : List String)
    (others : List FunctionLiteral) : Gains (names ++ more) (made ++ others) m after :=
  h.trans (.of_eq rfl rfl rfl)

end Gains

namespace Eval

/-- A step from every state of which so much is gained. -/
def Gain {α : Type} (names : List String) (made : List FunctionLiteral) (step : Eval α) : Prop :=
  ∀ m, Gains names made m (left (step m))

namespace Gain

variable {α β : Type} {names more : List String} {made others : List FunctionLiteral}

theorem quiet {step : Eval α} (h : Quiet step) : Gain names made step := by
  intro m
  obtain ⟨hscopes, hdefinitions, hframe⟩ := h.left_eq m
  exact .of_eq (congrArg Frame.scope hframe) hscopes (by rw [hdefinitions])

theorem bind {step : Eval α} {next : α → Eval β} (h : Gain names made step)
    (hn : ∀ a, Gain more others (next a)) :
    Gain (names ++ more) (made ++ others) (step >>= next) := by
  intro m
  have hm := h m
  rw [bind_run]
  split
  · rename_i a between hs
    rw [hs] at hm
    exact hm.trans (hn a between)
  · rename_i stop between hs
    rw [hs] at hm
    exact hm.mono more others

theorem behind {step : Eval α} {next : α → Eval β} (h : Quiet step)
    (hn : ∀ a, Gain names made (next a)) : Gain names made (step >>= next) := by
  have hs : Gain [] [] step := .quiet h
  exact hs.bind hn

theorem before {step : Eval α} {next : α → Eval β} (h : Gain names made step)
    (hn : ∀ a, Quiet (next a)) : Gain names made (step >>= next) := by
  have hq (a : α) : Gain [] [] (next a) := .quiet (hn a)
  have hb := h.bind hq
  rw [List.append_nil, List.append_nil] at hb
  exact hb

theorem define (name : String) (value : Value) : Gain [name] [] (define name value) := by
  intro m
  refine ⟨rfl, Scopes.size_define value, fun id other h => ?_, fun _ h => .inl h⟩
  rcases Scopes.containsLocal_define h with h | ⟨hid, rfl⟩
  · exact .inl h
  · exact .inr ⟨hid, List.mem_singleton_self _⟩

/-- An assignment binds a name where it is bound already. -/
theorem assign (name : String) (value : Value) : Gain [] [] (assign name value) := by
  intro m
  simp only [Eval.assign]
  split
  · rename_i owner howner
    refine ⟨rfl, Scopes.size_define value, fun id other h => .inl ?_, fun _ h => .inl h⟩
    rcases Scopes.containsLocal_define h with h | ⟨rfl, rfl⟩
    · exact h
    · exact Scopes.containsLocal_of_ownerWithin howner
  · exact .of_eq rfl rfl rfl

theorem step (op : StepOp) (name : String) : Gain [] [] (step op name) := by
  refine .behind (.lookup? name) fun o => ?_
  cases o with
  | none => exact .quiet (.pure _)
  | some current =>
    dsimp only
    split
    · exact .quiet (.pure _)
    · exact .before (.assign _ _) fun _ => .pure current

theorem newFunction (literal : FunctionLiteral) (scope : ScopeId) :
    Gain [] [literal] (onDefinitions (·.newFunction ⟨literal, scope⟩)) := by
  intro m
  refine ⟨rfl, rfl, fun _ _ h => .inl h, fun closure h => ?_⟩
  rcases Array.mem_push.mp h with h | rfl
  · exact .inl h
  · exact .inr (List.mem_singleton_self _)

theorem makeFunction (literal : FunctionLiteral) :
    Gain literal.name.toList [literal] (makeFunction literal) := by
  refine .behind .currentScope fun scope => ?_
  change Gain ([] ++ literal.name.toList) ([literal] ++ []) _
  refine .bind (.newFunction literal scope) fun id => ?_
  split
  · rename_i name hname
    rw [hname]
    exact .before (.define name _) fun _ => .pure _
  · exact .quiet (.pure _)

theorem bindEnum (name : String) (branches : List (String × Value)) :
    Gain [name] [] (bindEnum name branches) := by
  have hnew : Gain [] [] (onDefinitions (·.newEnum ⟨name, branches⟩)) :=
    fun _ => .of_eq rfl rfl rfl
  exact .bind hnew fun id => .define name (.enum id)

end Gain

end Eval

end ScriptLang
