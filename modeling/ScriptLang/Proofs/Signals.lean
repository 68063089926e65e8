-- Signals only travel. A run never puts an error, a return or a break into its store, a return
-- on its way out carries an ordinary value, and calls, imports and programs end all returns and
-- breaks inside them.
import ScriptLang.Proofs.Trace
import ScriptLang.Proofs.PlainMethod

namespace ScriptLang

/-! ## Plain states -/

/-- A state with a plain store, whose plugins keep it plain. -/
structure Machine.Plain (m : Machine) : Prop where
  store : m.store.Plain
  plugins : ∀ plugin ∈ m.store.definitions.plugins, plugin.Plain

namespace Eval

variable {α : Type} {P : α → Prop}

namespace Keeps

theorem heap : Keeps Machine.Plain heap Heap.Plain := fun _ hm => ⟨hm.store.heap, hm⟩

theorem onHeap {op : HeapOp Value} (h : Method.Keeps op) :
    Keeps Machine.Plain (onHeap op) fun v => v.isSettled = true := by
  intro m hm
  have hop := h m.store.heap hm.store.heap
  simp only [Eval.onHeap, Store.onHeap]
  cases hr : op m.store.heap with
  | ok v after =>
    rw [hr] at hop
    exact ⟨hop.1, ⟨hop.2, hm.store.scopes, hm.store.definitions⟩, hm.plugins⟩
  | error fault after =>
    rw [hr] at hop
    exact ⟨rfl, ⟨hop, hm.store.scopes, hm.store.definitions⟩, hm.plugins⟩

/-! ## Steps on scopes and definitions -/

theorem lookup? (name : String) :
    Keeps Machine.Plain (lookup? name) fun o => ∀ v, o = some v → v.Plain := by
  intro m hm
  exact ⟨fun v h => hm.store.scopes.get? h, hm⟩

theorem define (name : String) {value : Value} (hv : value.Plain) :
    Keeps Machine.Plain (define name value) fun _ => True := by
  intro m hm
  have hscopes := hm.store.scopes.define m.scope name hv
  exact ⟨trivial, ⟨hm.store.heap, hscopes, hm.store.definitions⟩, hm.plugins⟩

theorem assign (name : String) {value : Value} (hv : value.Plain) :
    Keeps Machine.Plain (assign name value) fun _ => True := by
  intro m hm
  simp only [Eval.assign]
  cases m.store.scopes.owner? m.scope name with
  | none => exact ⟨trivial, hm⟩
  | some owner =>
    have hscopes := hm.store.scopes.define owner name hv
    exact ⟨trivial, ⟨hm.store.heap, hscopes, hm.store.definitions⟩, hm.plugins⟩

theorem newScope (outer : ScopeId) : Keeps Machine.Plain (newScope outer) fun _ => True := by
  intro m hm
  have hscopes := hm.store.scopes.enclosed outer
  exact ⟨trivial, ⟨hm.store.heap, hscopes, hm.store.definitions⟩, hm.plugins⟩

theorem closure? (id : FunctionId) : Keeps Machine.Plain (closure? id) fun _ => True :=
  fun _ hm => ⟨trivial, hm⟩

theorem lookup (name : String) : Keeps Machine.Plain (lookup name) fun v => v.isSettled = true := by
  refine .bind (.lookup? name) fun o ho => ?_
  cases o with
  | some v => exact .pure (ho v rfl).isSettled
  | none =>
    dsimp only
    cases Builtin.ofName? name with
    | some b => exact .pure rfl
    | none => exact .pure rfl

theorem enum? (id : EnumId) :
    Keeps Machine.Plain (onDefinitions fun d => (d.enum? id, d))
      fun o => ∀ type, o = some type → ∀ b ∈ type.branches, Value.Plain b.2 :=
  fun _ hm => ⟨fun _ h => hm.store.definitions.enum? h, hm⟩

theorem scopeAccess (name branch : String) :
    Keeps Machine.Plain (scopeAccess name branch) fun v => v.isSettled = true := by
  refine .bind (.lookup name) fun v _ => ?_
  cases v with
  | enum id =>
    refine .bind (.enum? id) fun o ho => ?_
    cases o with
    | none => exact .pure rfl
    | some type =>
      dsimp only
      cases hb : type.branches.lookup branch with
      | none => exact .pure rfl
      | some w => exact .pure (ho type rfl _ (mem_of_lookup hb)).isSettled
  | _ => exact .pure rfl

theorem step (op : StepOp) (name : String) :
    Keeps Machine.Plain (step op name) fun v => v.isSettled = true := by
  refine .bind (.lookup? name) fun o ho => ?_
  cases o with
  | none => exact .pure rfl
  | some current =>
    dsimp only
    have hs := Operation.stepped_isSettled op name current
    split
    · exact .pure hs
    · rename_i hne
      have hp := Value.isSignal_eq_false hs (by simpa using hne)
      exact .bind (.assign name hp) fun _ _ => .pure (ho current rfl).isSettled

theorem newFunction (closure : Closure) :
    Keeps Machine.Plain (onDefinitions (·.newFunction closure)) fun _ => True :=
  fun _ hm => ⟨trivial, ⟨hm.store.heap, hm.store.scopes, hm.store.definitions⟩, hm.plugins⟩

theorem makeFunction (literal : FunctionLiteral) :
    Keeps Machine.Plain (makeFunction literal) fun v => v.isSettled = true := by
  refine .bind (P := fun _ => True) (fun _ hm => ⟨trivial, hm⟩) fun scope _ => ?_
  refine .bind (.newFunction _) fun id _ => ?_
  split
  · exact .bind (.define _ rfl) fun _ _ => .pure rfl
  · exact .pure rfl

theorem bindEnum (name : String) {branches : List (String × Value)}
    (hb : ∀ b ∈ branches, b.2.Plain) :
    Keeps Machine.Plain (bindEnum name branches) fun _ => True := by
  refine .bind (P := fun _ => True) (fun m hm => ?_) fun id _ => .define name rfl
  exact ⟨trivial, ⟨hm.store.heap, hm.store.scopes, hm.store.definitions.newEnum hb⟩, hm.plugins⟩

/-! ## Steps on collections -/

theorem readElement (container key : Value) :
    Keeps Machine.Plain (readElement container key) fun v => v.isSettled = true := by
  refine .bind .heap fun h hh => ?_
  exact .pure (hh.index container key)

theorem writeElement (container key : Value) {value : Value} (hv : value.Plain) :
    Keeps Machine.Plain (writeElement container key value) fun v => v.isSettled = true := by
  refine .onHeap (.bind (.write container key hv) fun _ _ => ?_)
  exact .pure hv.isSettled

theorem eraseElement (container key : Value) :
    Keeps Machine.Plain (eraseElement container key) fun v => v.isSettled = true := by
  refine .onHeap (.bind (.delete container key) fun _ _ => ?_)
  exact .pure rfl

theorem newArray {items : List Value} (h : ∀ v ∈ items, v.Plain) :
    Keeps Machine.Plain (newArray items) fun v => v.isSettled = true :=
  .onHeap (Method.keeps_newArray h)

theorem newHash {object : HashObject} (h : object.Holds Value.Plain) :
    Keeps Machine.Plain (newHash object) fun v => v.isSettled = true :=
  .onHeap fun _ hh => ⟨rfl, hh.newHash h⟩

theorem callMethod (receiver : Value) (method : String) {args : List Value}
    (ha : ∀ a ∈ args, a.Plain) :
    Keeps Machine.Plain (callMethod receiver method args) fun v => v.isSettled = true := by
  intro m hm
  refine Keeps.onHeap ?_ m hm
  exact Method.keeps_call hm.store.definitions hm.plugins receiver ha

/-! ## Builtin functions -/

theorem copied {value : Value} (hv : value.Plain) :
    Keeps Machine.Plain (copied value) fun v => v.isSettled = true := by
  refine .onHeap fun h hh => ?_
  have hc := Heap.copies_copyWithin (h.size + 1) h value hh hv
  exact ⟨hc.1.isSettled, hc.2⟩

theorem copiedArray {values : List Value} (hv : ∀ v ∈ values, v.Plain) :
    Keeps Machine.Plain (copiedArray values) fun v => v.isSettled = true := by
  refine .onHeap fun h hh => ?_
  have hc := (Heap.copies_copyWithin (h.size + 1)).list hh hv
  exact Method.keeps_newArray hc.1 _ hc.2

theorem onSink (op : EStateM SinkError Sink Unit) :
    Keeps Machine.Plain (onSink op) fun _ => True := by
  intro m hm
  simp only [Eval.onSink]
  cases op m.sink with
  | ok _ sink => exact ⟨trivial, hm.store, hm.plugins⟩
  | error reason sink => exact ⟨hm.store, hm.plugins⟩

theorem putLines (values : List Value) : Keeps Machine.Plain (putLines values) fun _ => True := by
  induction values with
  | nil => exact .pure trivial
  | cons value rest ih =>
    refine .bind (P := fun _ => True) (fun _ hm => ⟨trivial, hm⟩) fun text _ => ?_
    exact .bind (.onSink _) fun _ _ => ih

theorem draw {f : Inputs → α × Inputs} : Keeps Machine.Plain (draw f) fun _ => True :=
  fun _ hm => ⟨trivial, hm.store, hm.plugins⟩

theorem lengthOf (value : Value) :
    Keeps Machine.Plain (lengthOf value) fun v => v.isSettled = true := by
  cases value with
  | array id | hash id => exact .bind .heap fun _ _ => .pure rfl
  | _ => exact .pure rfl

theorem firstOf (value : Value) :
    Keeps Machine.Plain (firstOf value) fun v => v.isSettled = true := by
  cases value with
  | array id =>
    refine .bind .heap fun h hh => .copied ?_
    cases hf : (h.array id)[0]? with
    | none => rfl
    | some v => exact hh.array id v (Array.mem_of_getElem? hf)
  | _ => exact .pure rfl

theorem lastOf (value : Value) :
    Keeps Machine.Plain (lastOf value) fun v => v.isSettled = true := by
  cases value with
  | array id => exact .bind .heap fun h hh => .copied (Method.plain_back hh id)
  | _ => exact .pure rfl

theorem restOf (value : Value) :
    Keeps Machine.Plain (restOf value) fun v => v.isSettled = true := by
  cases value with
  | array id =>
    refine .bind .heap fun h hh => ?_
    cases hl : (h.array id).toList with
    | nil => exact .pure rfl
    | cons first tail =>
      refine .copiedArray fun v hv => hh.array id v (Array.mem_def.mpr ?_)
      rw [hl]
      exact List.mem_cons_of_mem _ hv
  | _ => exact .pure rfl

theorem pushOnto (value : Value) {item : Value} (hi : item.Plain) :
    Keeps Machine.Plain (pushOnto value item) fun v => v.isSettled = true := by
  cases value with
  | array id =>
    refine .bind .heap fun h hh => .copiedArray fun v hv => ?_
    rcases List.mem_append.mp hv with h1 | h1
    · exact hh.array id v (Array.mem_def.mpr h1)
    · rw [List.mem_singleton.mp h1]
      exact hi
  | _ => exact .pure rfl

theorem time (host : Host) : Keeps Machine.Plain (time host) fun v => v.isSettled = true :=
  .bind .draw fun _ _ => .pure rfl

theorem random (host : Host) (args : List Value) :
    Keeps Machine.Plain (random host args) fun v => v.isSettled = true := by
  cases args with
  | nil => exact .bind .draw fun _ _ => .pure rfl
  | cons a rest =>
    cases a with
    | integer n =>
      simp only [Eval.random]
      split
      · exact .bind .draw fun _ _ => .pure rfl
      · exact .pure rfl
    | _ => exact .pure rfl

theorem exitWith (args : List Value) :
    Keeps Machine.Plain (exitWith args) fun v => v.isSettled = true := by
  cases args with
  | nil => exact .fail _
  | cons a rest =>
    cases a with
    | integer n =>
      simp only [Eval.exitWith]
      split
      · exact .fail _
      · exact .pure rfl
    | _ => exact .pure rfl

theorem findPlugin (host : Host) (value : Value) :
    Keeps Machine.Plain (findPlugin host value) fun v => v.isSettled = true := by
  cases value with
  | string name =>
    simp only [Eval.findPlugin]
    cases host.pluginId? name with
    | some id => exact .pure rfl
    | none => exact .pure rfl
  | _ => exact .pure rfl

theorem plain_headD {args : List Value} (ha : ∀ a ∈ args, a.Plain) : (args.headD .null).Plain := by
  cases args with
  | nil => rfl
  | cons a rest => exact ha a (by simp)

theorem applyBuiltin (host : Host) (b : Builtin) {args : List Value}
    (ha : ∀ a ∈ args, a.Plain) :
    Keeps Machine.Plain (applyBuiltin host b args) fun v => v.isSettled = true := by
  unfold Eval.applyBuiltin
  split
  · cases b with
    | len => exact .lengthOf _
    | first => exact .firstOf _
    | last => exact .lastOf _
    | rest => exact .restOf _
    | push => exact .pushOnto _ (plain_headD fun a h => ha a (List.mem_of_mem_drop h))
    | puts => exact .bind (.putLines args) fun _ _ => .bind (.onSink _) fun _ _ => .pure rfl
    | time => exact .time host
    | rand => exact .random host args
    | args => exact .newArray (Method.plain_strings host.args)
    | exit => exact .exitWith args
    | plugin => exact .findPlugin host _
    | type => exact .pure rfl
  · exact .pure rfl

/-- Every step of an evaluation keeps states plain. -/
theorem taken {host : Host} {step : Eval α}
    (h : Taken host Value.Plain (fun v => v.isSettled = true) step P) :
    Keeps Machine.Plain step P := by
  cases h with
  | exhausted => exact fun _ hm => hm
  | heap => exact .mono .heap fun _ _ => trivial
  | lookup? name => exact .mono (.lookup? name) fun _ _ => trivial
  | closure? id => exact .closure? id
  | lookup name => exact .lookup name
  | scopeAccess name branch => exact .scopeAccess name branch
  | readElement container key => exact .readElement container key
  | step op name => exact .step op name
  | makeFunction literal => exact .makeFunction literal
  | eraseElement container key => exact .eraseElement container key
  | writeElement container key hv => exact .writeElement container key hv
  | define name hv => exact .define name hv
  | assign name hv => exact .assign name hv
  | bindEnum name hb => exact .bindEnum name hb
  | newArray hi => exact .newArray hi
  | newHash ho => exact .newHash ho
  | callMethod method hr ha => exact .callMethod _ method ha
  | applyBuiltin b ha => exact .applyBuiltin host b ha

end Keeps

/-! ## Runs -/

/-- A value on its way out of statements: a return carries an ordinary value. -/
def Flows (v : Value) : Prop := ∀ w, v = .returning w → w.Plain

/-- Plain states are what every evaluation keeps. -/
def plainStates (host : Host) : StoreInvariant host where
  Holds := Machine.Plain
  Kept := Value.Plain
  Given v := v.isSettled = true
  Flows := Flows
  kept_of_plain h := h
  given_of_kept h := h.isSettled
  given_error _ := rfl
  given_settled h := Value.isSettled_settled h
  flows_of_given h w hw := by subst hw; cases h
  flows_breaking w hw := by cases hw
  flows_returning h w hw := by cases hw; exact h
  enter _ _ hm := ⟨hm.store, hm.plugins⟩
  newScope := .newScope
  taken := .taken

/-- What evaluation from a state makes of signals: a return carries an ordinary value, and calls,
imports and programs end all returns and breaks inside them. An import passes on what the
expression for its path gives. -/
structure EndsSignals (host : Host) (m : Machine) : Prop where
  expr : ∀ fuel e w after, (expr host fuel e : Eval Value) m = .ok (.returning w) after → w.Plain
  statement : ∀ fuel s w after,
    (statement (Eval.expr host fuel) s : Eval Value) m = .ok (.returning w) after → w.Plain
  apply : ∀ fuel callee args v after, (∀ a ∈ args, Value.Plain a) →
    (apply host (Eval.expr host fuel) callee args : Eval Value) m = .ok v after →
    v.isSettled = true
  importFile : ∀ fuel path position v after,
    (Eval.expr host (fuel + 1) (.importFile path position) : Eval Value) m = .ok v after →
    v.isSettled = true ∨ (Eval.expr host fuel path : Eval Value) m = .ok v after
  program : ∀ fuel p v after,
    (program host fuel p : Eval Value) m = .ok v after → v.isSettled = true

/-- A value that comes after another one is a signal in its place, or what is made of it. -/
theorem andThen_cases {x : Eval Value} {f : Value → Eval Value} {v : Value} {m after : Machine}
    (h : andThen x f m = .ok v after) :
    x m = .ok v after ∨ ∃ w between, x m = .ok w between ∧ f w between = .ok v after := by
  unfold andThen at h
  rw [bind_run] at h
  cases hx : x m with
  | error stop between =>
    rw [hx] at h
    cases h
  | ok w between =>
    rw [hx] at h
    cases hs : w.isSignal with
    | true =>
      simp only [hs, if_true] at h
      exact .inl h
    | false =>
      simp only [hs, Bool.false_eq_true, if_false] at h
      exact .inr ⟨w, between, rfl, h⟩

theorem endsSignals {host : Host} {m : Machine} (hm : m.Plain) : EndsSignals host m := by
  let J := plainStates host
  have he (fuel : Nat) := J.rules.expr fuel
  refine ⟨?_, ?_, ?_, ?_, ?_⟩
  · intro fuel e w after h
    exact J.result (he fuel e) hm h w rfl
  · intro fuel s w after h
    exact J.result (J.rules.statement (he fuel) s) hm h w rfl
  · intro fuel callee args v after ha h
    exact J.result (J.rules.apply (he fuel) callee ha) hm h
  · intro fuel path position v after h
    rw [expr, nested_run] at h
    -- The path gives a signal, or it gives a value and the file of that name is run.
    rcases andThen_cases h with h1 | ⟨file, between, h1, h2⟩
    · exact .inr h1
    · have hb := J.left (he fuel path) hm
      rw [h1] at hb
      exact .inl (J.result (J.rules.importValue (he fuel) file) hb h2)
  · intro fuel p v after h
    exact J.result (J.rules.program fuel p) hm h

theorem plain_start {host : Host} (hp : ∀ plugin ∈ host.plugins, plugin.Plain) (sink : Sink)
    (seed : UInt64) : (Machine.start host sink seed).Plain := by
  refine ⟨⟨⟨?_, ?_⟩, ?_, ?_⟩, ?_⟩
  · simp [Machine.start, Store.empty, Heap.empty]
  · simp [Machine.start, Store.empty, Heap.empty]
  · simp [Machine.start, Scopes.Plain, Scopes.newGlobal, Scopes.empty]
  · simp [Machine.start, Definitions.Plain, Definitions.empty]
  · simpa [Machine.start] using hp

/-- Signals only travel: on a host whose plugins are plain, every state of every run has a plain
store, also the one that it leaves behind, and evaluation from there ends the signals in it. -/
theorem signals_only_travel (host : Host) (hp : ∀ plugin ∈ host.plugins, plugin.Plain)
    (sink : Sink) (seed : UInt64) (fuel : Nat) (p : Program) :
    (∀ k ∈ moments host fuel p (Machine.start host sink seed),
      k.machine.store.Plain ∧ EndsSignals host k.machine) ∧
    (left ((program host fuel p : Eval Value) (Machine.start host sink seed))).store.Plain := by
  have hm := plain_start hp sink seed
  constructor
  · intro k hk
    have hplain := (plainStates host).moments hm k hk
    exact ⟨hplain.store, endsSignals hplain⟩
  · exact ((plainStates host).left ((plainStates host).rules.program fuel p) hm).store

theorem signals_only_travel_returning :
    let host : Host := { Host.plain with plugins := [.math, .text, .empty] }
    let m := Machine.start host .unlimited 0
    let p : Program := [.returning (some (.boolean true .start)) .start]
    (∀ plugin ∈ host.plugins, plugin.Plain) ∧
    (∀ k ∈ moments host 9 p m, k.machine.store.Plain ∧ EndsSignals host k.machine) ∧
    (left ((program host 9 p : Eval Value) m)).store.Plain := by
  intro host m p
  exact ⟨Plugin.plain_named, signals_only_travel host Plugin.plain_named .unlimited 0 9 p⟩

/-- An import may give a return: that of the expression for its path. -/
theorem importFile_may_return :
    ¬∀ (host : Host) (sink : Sink) (seed : UInt64) (fuel : Nat) (p : Program),
      ∀ k ∈ moments host fuel p (Machine.start host sink seed),
      ∀ level path position v after,
        (expr host level (.importFile path position) : Eval Value) k.machine = .ok v after →
        v.isSettled = true := by
  intro h
  let path : Expr := .conditional (.boolean true .start)
    (.mk [.returning (some (.integer 7 .start)) .start] .start) none .start
  have hv := h Host.plain .unlimited 0 9 [.expression (.importFile path .start) .start]
    _ List.mem_cons_self 9 path .start (.returning (.integer 7)) _ rfl
  cases hv

end Eval

end ScriptLang
