-- Scope hygiene. Names are bound in the innermost scope only, and a block, a loop and a call make
-- an innermost scope of their own. So whatever comes of them, the scopes that were there before
-- bind the names that they bound before. The plugins of the host are assumed to bind none, as the
-- type `PluginFunction` has it.
import ScriptLang.Proofs.Frames

namespace ScriptLang

open Eval

/-! ## Scopes with the same names -/

/-- A scope that binds the names of another one, in the same order and inside the same scope. Only
the values may differ. -/
structure Scope.SameNames (old new : Scope) : Prop where
  outer : new.outer = old.outer
  names : new.bindings.map Prod.fst = old.bindings.map Prod.fst

namespace Scope

theorem SameNames.refl (scope : Scope) : scope.SameNames scope := ⟨rfl, rfl⟩

theorem SameNames.trans {a b c : Scope} (h : a.SameNames b) (h' : b.SameNames c) :
    a.SameNames c := ⟨h'.outer.trans h.outer, h'.names.trans h.names⟩

/-- A name that is bound already is bound in its old place. -/
theorem map_fst_bind {name : String} {bindings : List (String × Value)}
    (h : (bindings.lookup name).isSome = true) (value : Value) :
    (Scope.bind name value bindings).map Prod.fst = bindings.map Prod.fst := by
  induction bindings with
  | nil => cases h
  | cons b rest ih =>
    obtain ⟨other, old⟩ := b
    by_cases hname : other = name
    · simp [Scope.bind, hname]
    · have hne : (name == other) = false := beq_eq_false_iff_ne.mpr (Ne.symm hname)
      rw [List.lookup_cons, hne] at h
      simp [Scope.bind, hname, ih h]

theorem sameNames_bind {scope : Scope} {name : String} (h : scope.binds name = true)
    (value : Value) :
    scope.SameNames { scope with bindings := Scope.bind name value scope.bindings } :=
  ⟨rfl, map_fst_bind h value⟩

end Scope

namespace Scopes

/-- Whatever scope `s` has at an index in `kept`, `after` has there a scope with the same names. -/
def SameNames (kept : Nat → Prop) (s after : Scopes) : Prop :=
  ∀ i scope, kept i → s.all[i]? = some scope →
    ∃ scope', after.all[i]? = some scope' ∧ scope.SameNames scope'

variable {kept : Nat → Prop} {s between after : Scopes} {id : ScopeId} {name : String}

theorem SameNames.refl (s : Scopes) : s.SameNames kept s :=
  fun _ scope _ h => ⟨scope, h, .refl scope⟩

theorem SameNames.trans (h : s.SameNames kept between) (h' : between.SameNames kept after) :
    s.SameNames kept after := by
  intro i scope hi hscope
  obtain ⟨middle, hmiddle, hsame⟩ := h i scope hi hscope
  obtain ⟨last, hlast, hsame'⟩ := h' i middle hi hmiddle
  exact ⟨last, hlast, hsame.trans hsame'⟩

theorem SameNames.mono {fewer : Nat → Prop} (h : s.SameNames kept after)
    (hf : ∀ i, fewer i → kept i) : s.SameNames fewer after :=
  fun i scope hi => h i scope (hf i hi)

/-- A new scope comes behind all others. -/
theorem sameNames_enclosed (outer : ScopeId) : s.SameNames kept (s.enclosed outer).2 := by
  intro i scope _ hscope
  refine ⟨scope, ?_, .refl scope⟩
  have hlt : i < s.all.size := (Array.getElem?_eq_some_iff.mp hscope).1
  simp only [enclosed, Array.getElem?_push]
  rw [if_neg (Nat.ne_of_lt hlt)]
  exact hscope

/-- A definition leaves the other scopes alone. -/
theorem sameNames_define (value : Value) :
    s.SameNames (· ≠ id.index) (s.define id name value) := by
  intro i scope hi hscope
  refine ⟨scope, ?_, .refl scope⟩
  simp only [define, Array.getElem?_modify]
  rw [if_neg (Ne.symm hi)]
  exact hscope

theorem binds_of_ownerWithin {steps : Nat} {owner : ScopeId} {scope : Scope}
    (h : s.ownerWithin name steps id = some owner) (hscope : s.all[owner.index]? = some scope) :
    scope.binds name = true := by
  fun_induction ownerWithin s name steps id with
  | case1 | case2 | case5 => cases h
  | case3 steps id found hfound hbinds =>
    cases h
    rw [hfound] at hscope
    cases hscope
    exact hbinds
  | case4 steps id found hfound hbinds outer houter ih => exact ih h

/-- An assignment writes where the name is bound, so no scope gains or loses a name. -/
theorem sameNames_assign {owner : ScopeId} (h : s.owner? id name = some owner) (value : Value) :
    s.SameNames kept (s.define owner name value) := by
  intro i scope _ hscope
  simp only [define, Array.getElem?_modify]
  split
  · rename_i hi
    rw [← hi] at hscope ⊢
    rw [hscope]
    exact ⟨_, rfl, Scope.sameNames_bind (binds_of_ownerWithin h hscope) value⟩
  · exact ⟨scope, hscope, .refl scope⟩

end Scopes

/-! ## Evaluations that bind in their own scope -/

namespace Eval

variable {α β : Type}

/-- The names of all scopes are afterwards what they were before. -/
def KeepsNames (x : Eval α) : Prop :=
  ∀ m : Machine, m.store.scopes.SameNames (fun _ => True) (left (x m)).store.scopes

/-- A result that comes back to the scope that the evaluation started in, and has bound no name in
another scope that was there. -/
structure BindsHere (P : α → Prop) (m : Machine) (r : EStateM.Result Stop Machine α) : Prop where
  scope : (left r).scope = m.scope
  names : m.store.scopes.SameNames (· ≠ m.scope.index) (left r).store.scopes
  result : ∀ a after, r = .ok a after → P a

/-! ## Steps -/

namespace BindsHere

variable {P : α → Prop} {Q : β → Prop} {m : Machine}

theorem bind {x : Eval α} {f : α → Eval β} (h : BindsHere P m (x m))
    (hf : ∀ a, P a → ∀ between, BindsHere Q between (f a between)) :
    BindsHere Q m ((x >>= f) m) := by
  obtain ⟨hscope, hnames, hresult⟩ := h
  rw [bind_run]
  cases hx : x m with
  | error stop between =>
    rw [hx] at hscope hnames
    exact ⟨hscope, hnames, by simp⟩
  | ok a between =>
    rw [hx] at hscope hnames
    have hback : between.scope = m.scope := hscope
    obtain ⟨hscope', hnames', hresult'⟩ := hf a (hresult a between hx) between
    rw [hback] at hscope' hnames'
    exact ⟨hscope', hnames.trans hnames', hresult'⟩

theorem quiet {step : Eval α} (h : Quiet step) (m : Machine) :
    BindsHere (fun _ => True) m (step m) := by
  obtain ⟨hscopes, -, hframe⟩ := h.left_eq m
  refine ⟨congrArg Frame.scope hframe, ?_, fun _ _ _ => trivial⟩
  rw [hscopes]
  exact .refl _

theorem onDefinitions (f : Definitions → α × Definitions) (m : Machine) :
    BindsHere (fun _ => True) m (onDefinitions f m) :=
  ⟨rfl, .refl _, fun _ _ _ => trivial⟩

theorem define (name : String) (value : Value) (m : Machine) :
    BindsHere (fun _ => True) m (define name value m) :=
  ⟨rfl, Scopes.sameNames_define value, fun _ _ _ => trivial⟩

theorem assign (name : String) (value : Value) (m : Machine) :
    BindsHere (fun _ => True) m (assign name value m) := by
  simp only [Eval.assign]
  split
  · rename_i owner howner
    exact ⟨rfl, Scopes.sameNames_assign howner value, fun _ _ _ => trivial⟩
  · exact ⟨rfl, .refl _, fun _ _ _ => trivial⟩

theorem step (op : StepOp) (name : String) (m : Machine) :
    BindsHere (fun _ => True) m (step op name m) := by
  refine .bind (.quiet (.lookup? name) m) fun o _ => ?_
  cases o with
  | none => exact .quiet (.pure _)
  | some current =>
    dsimp only
    split
    · exact .quiet (.pure _)
    · exact fun between => .bind (.assign _ _ between) fun _ _ => .quiet (.pure current)

theorem makeFunction (literal : FunctionLiteral) (m : Machine) :
    BindsHere (fun _ => True) m (makeFunction literal m) := by
  refine .bind (.quiet .currentScope m) fun scope _ between => ?_
  refine .bind (.onDefinitions _ between) fun id _ => ?_
  cases literal.name with
  | some name => exact fun between => .bind (.define name _ between) fun _ _ => .quiet (.pure _)
  | none => exact .quiet (.pure _)

/-- Every step of an evaluation binds in the innermost scope. -/
theorem taken {host : Host} {Kept Given : Value → Prop} {step : Eval α}
    (h : Taken host Kept Given step P) (m : Machine) :
    BindsHere (fun _ => True) m (step m) := by
  cases h with
  | exhausted => exact .quiet .exhausted m
  | heap => exact .quiet .heap m
  | lookup? name => exact .quiet (.lookup? name) m
  | closure? id => exact .onDefinitions _ m
  | lookup name => exact .quiet (.lookup name) m
  | scopeAccess name branch => exact .quiet (.scopeAccess name branch) m
  | readElement container key => exact .quiet (.readElement container key) m
  | step op name => exact .step op name m
  | makeFunction literal => exact .makeFunction literal m
  | eraseElement container key | writeElement container key hv => exact .quiet (.onHeap _) m
  | define name hv => exact .define name _ m
  | assign name hv => exact .assign name _ m
  | bindEnum name hb => exact .bind (.onDefinitions _ m) fun _ _ => .define name _
  | newArray hi => exact .quiet (.onHeap _) m
  | newHash ho => exact .quiet (.onHeap _) m
  | callMethod method hr ha => exact .quiet (.callMethod _ method _) m
  | applyBuiltin b ha => exact .quiet (.applyBuiltin host b _) m

end BindsHere

/-! ## New scopes -/

/-- What binds in the innermost scope keeps all names if that scope is new. -/
theorem sameNames_within {P : α → Prop} {x : Eval α} (h : ∀ m, BindsHere P m (x m))
    (m : Machine) (outer : ScopeId) :
    m.store.scopes.SameNames (fun _ => True)
      (left (within (.scope m.nextScope) x (m.opened outer))).store.scopes := by
  rw [within_eq, left_closed]
  intro i scope _ hscope
  have hopened : m.store.scopes.SameNames (fun _ => True) (m.opened outer).store.scopes :=
    Scopes.sameNames_enclosed outer
  have hold : i ≠ m.nextScope.index := Nat.ne_of_lt (Array.getElem?_eq_some_iff.mp hscope).1
  obtain ⟨middle, hmiddle, hsame⟩ := hopened i scope trivial hscope
  obtain ⟨last, hlast, hsame'⟩ :=
    (h ((Bracket.scope m.nextScope).enter (m.opened outer))).names i middle hold hmiddle
  exact ⟨last, hlast, hsame.trans hsame'⟩

namespace KeepsNames

theorem quiet {step : Eval α} (h : Quiet step) : KeepsNames step := by
  intro m
  rw [(h.left_eq m).1]
  exact .refl _

theorem bind {x : Eval α} {f : α → Eval β} (h : KeepsNames x) (hf : ∀ a, KeepsNames (f a)) :
    KeepsNames (x >>= f) := by
  intro m
  have hm := h m
  rw [bind_run]
  cases hx : x m with
  | error stop between =>
    rw [hx] at hm
    exact hm
  | ok a between =>
    rw [hx] at hm
    exact hm.trans (hf a between)

theorem inNewScope {P : α → Prop} {x : Eval α} (h : ∀ m, BindsHere P m (x m)) :
    KeepsNames (inNewScope x) :=
  fun m => sameNames_within h m m.scope

theorem inCall {P : α → Prop} {x : Eval α} (h : ∀ m, BindsHere P m (x m)) (limit : Nat)
    (closure : Closure) (args : List Value) : KeepsNames (inCall limit closure args x) := by
  intro m
  rw [inCall_run]
  split
  · exact .refl _
  · rw [within_eq, left_closed]
    exact sameNames_within h (Bracket.call.enter m) closure.scope

end KeepsNames

theorem BindsHere.within {P : α → Prop} {x : Eval α} (h : ∀ m, BindsHere P m (x m))
    (m : Machine) (outer : ScopeId) :
    BindsHere P m (within (.scope m.nextScope) x (m.opened outer)) := by
  have hnames := sameNames_within h m outer
  refine ⟨?_, hnames.mono fun _ _ => trivial, ?_⟩
  · rw [within_eq, left_closed]
    rfl
  · intro a after hr
    rw [within_eq] at hr
    obtain ⟨last, hx⟩ := ok_of_closed hr
    exact (h _).result a last hx

/-- The brackets of calls and imports have nothing to do with scopes: that the scope is back behind
them is due to what they evaluate. -/
theorem BindsHere.closed {P : α → Prop} {m before : Machine} {r : EStateM.Result Stop Machine α}
    (h : BindsHere P m r) {b : Bracket} (hb : ∀ inner, b ≠ .scope inner) :
    BindsHere P m (closed b before r) := by
  obtain ⟨hscope, hnames, hresult⟩ := h
  refine ⟨?_, ?_, ?_⟩
  · rw [left_closed]
    cases b with
    | scope inner => exact absurd rfl (hb inner)
    | call | importing path => exact hscope
  · rw [left_closed]
    cases b <;> exact hnames
  · intro a after hr
    obtain ⟨last, hx⟩ := ok_of_closed hr
    exact hresult a last hx

theorem BindsHere.inCall {P : α → Prop} {x : Eval α} (h : ∀ m, BindsHere P m (x m)) (limit : Nat)
    (closure : Closure) (args : List Value) (m : Machine) :
    BindsHere P m (inCall limit closure args x m) := by
  rw [inCall_run]
  split
  · exact ⟨rfl, .refl _, by simp⟩
  · obtain ⟨hscope, hnames, hresult⟩ := BindsHere.within h (Bracket.call.enter m) closure.scope
    rw [within_eq]
    refine .closed ?_ fun _ => Bracket.noConfusion
    exact ⟨hscope, hnames, hresult⟩

/-- An import runs in the scope that it stands in. -/
theorem BindsHere.importing {P : α → Prop} {x : Eval α} (h : ∀ m, BindsHere P m (x m))
    (path : String) (m : Machine) : BindsHere P m (inBracket (.importing path) x m) := by
  obtain ⟨hscope, hnames, hresult⟩ := h ((Bracket.importing path).enter m)
  change BindsHere P m (Eval.within (.importing path) x m)
  rw [within_eq]
  refine .closed ?_ fun _ => Bracket.noConfusion
  exact ⟨hscope, hnames, hresult⟩

theorem BindsHere.inImport {P : α → Prop} {run : Program → Eval α}
    (h : ∀ p m, BindsHere P m (run p m)) (host : Host) (file : String) (m : Machine) :
    BindsHere (fun r => ∀ a, r = .ok a → P a) m (inImport host file run m) := by
  have hframe : (liftM frame : Eval Frame) m = .ok (Frame.of m) m := rfl
  unfold Eval.inImport
  rw [bind_run, hframe]
  dsimp only
  cases host.load (Frame.of m).imports file with
  | error reason => exact ⟨rfl, .refl _, by rintro _ _ ⟨⟩ a ⟨⟩⟩
  | ok p =>
    refine .bind (.importing (h p) _ m) fun a ha between => ⟨rfl, .refl _, ?_⟩
    rintro _ _ ⟨⟩ _ ⟨⟩
    exact ha

end Eval

/-- Every evaluation binds names in its own scope. -/
def bindsHere (host : Host) : Rules host Eval Eval where
  Kept _ := True
  Given _ := True
  Flows _ := True
  Rel x _ P := ∀ m, BindsHere P m (x m)
  kept_of_plain _ := trivial
  given_of_kept _ := trivial
  given_error _ := trivial
  given_settled _ := trivial
  flows_of_given _ := trivial
  flows_breaking := trivial
  flows_returning _ := trivial
  mono h hpq m := { h m with result := fun a after hr => hpq a ((h m).result a after hr) }
  pure ha _ := ⟨rfl, .refl _, by rintro _ _ ⟨⟩; exact ha⟩
  bind h hf m := (h m).bind hf
  act h m := { BindsHere.taken h m with result := fun _ _ hr => h.result_of_true hr }
  evaluates _ := .quiet (.pure ())
  executes _ := .quiet (.pure ())
  nested level x _ P h := by
    rw [nested_run]
    exact h
  scope h m := .within h m m.scope
  call closure args _ _ _ _ h := .inCall h host.maxCallDepth closure args
  load file _ _ _ h := .inImport h host file

namespace Eval

variable (host : Host) (fuel : Nat)

theorem keepsNames_block (b : Block) : KeepsNames (block (expr host fuel) b) := by
  let R := bindsHere host
  exact .inNewScope (R.statements (R.expr fuel) trivial b.statements)

theorem keepsNames_loop (passes : Nat) (initializer : Option Statement)
    (condition clause : Option Expr) (body : Block) :
    KeepsNames (loop passes (expr host fuel) initializer condition clause body) := by
  let R := bindsHere host
  have he := R.expr fuel
  refine .inNewScope (P := R.Flows) fun m => ?_
  refine (R.start he initializer m).bind fun o ho => ?_
  cases o with
  | some signal => exact R.pure (ho signal rfl)
  | none => exact R.passes he condition clause body passes trivial

theorem keepsNames_callClosure (closure : Closure) (args : List Value) :
    KeepsNames (callClosure host (expr host fuel) closure args) := by
  let R := bindsHere host
  have hargs : ∀ a ∈ args, R.Kept a := fun _ _ => trivial
  have hbody := R.callBody (R.expr fuel) closure.literal hargs
  unfold callClosure
  dsimp only
  split
  · exact .bind (.inCall hbody _ _ _) fun _ => .quiet (.pure _)
  · exact .quiet (.pure _)

theorem keepsNames_apply (callee : Value) (args : List Value) :
    KeepsNames (apply host (expr host fuel) callee args) := by
  cases callee with
  | function id =>
    have hread : KeepsNames (closure? id) := fun _ => .refl _
    refine hread.bind fun o => ?_
    cases o with
    | none => exact .quiet (.pure _)
    | some closure => exact keepsNames_callClosure host fuel closure args
  | builtin b => exact .quiet (.applyBuiltin host b args)
  | _ => exact .quiet (.pure _)

/-- A block, a loop and the application of a value bind no name in any scope that was there before
them, and take none away, whether they give a value, a signal or nothing at all. -/
theorem scope_names_kept :
    (∀ b, KeepsNames (block (expr host fuel) b)) ∧
    (∀ passes initializer condition clause body,
      KeepsNames (loop passes (expr host fuel) initializer condition clause body)) ∧
    ∀ callee args, KeepsNames (apply host (expr host fuel) callee args) :=
  ⟨keepsNames_block host fuel, keepsNames_loop host fuel, keepsNames_apply host fuel⟩

end Eval

end ScriptLang
