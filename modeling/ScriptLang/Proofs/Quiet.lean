-- Steps that leave the program where it is. A quiet step reads names and enums, works on the
-- collections, writes output, draws random numbers and reads the clock; the scopes, the definitions
-- and the frame are afterwards what they were before.
import ScriptLang.Proofs.Trace

namespace ScriptLang

theorem Store.onHeap_scopes (store : Store) (op : HeapOp Value) :
    (store.onHeap op).2.scopes = store.scopes := by
  simp only [Store.onHeap]
  split <;> rfl

theorem Store.onHeap_definitions (store : Store) (op : HeapOp Value) :
    (store.onHeap op).2.definitions = store.definitions := by
  simp only [Store.onHeap]
  split <;> rfl

namespace Eval

/-- A step that is made of reading, of work on the collections, of output, of random numbers and
of the time. -/
inductive Quiet : {α : Type} → Eval α → Prop
  | pure {α : Type} (a : α) : Quiet (pure a : Eval α)
  | bind {α β : Type} {step : Eval α} {next : α → Eval β} (h : Quiet step)
      (hn : ∀ a, Quiet (next a)) : Quiet (step >>= next)
  | heap : Quiet heap
  | onHeap (op : HeapOp Value) : Quiet (onHeap op)
  | enum? (id : EnumId) : Quiet (onDefinitions fun d => (d.enum? id, d))
  | lookup? (name : String) : Quiet (lookup? name)
  | currentScope : Quiet currentScope
  | render (value : Value) : Quiet (render value)
  | callMethod (receiver : Value) (method : String) (args : List Value) :
      Quiet (callMethod receiver method args)
  | onSink (op : EStateM SinkError Sink Unit) : Quiet (onSink op)
  | draw {α : Type} (f : Inputs → α × Inputs) : Quiet (draw f)
  | exit {α : Type} (code : Int) : Quiet (fail (.exit code) : Eval α)
  | exhausted {α : Type} : Quiet (exhausted : Eval α)

namespace Quiet

theorem lookup (name : String) : Quiet (lookup name) := by
  refine .bind (.lookup? name) fun o => ?_
  cases o with
  | some v => exact .pure v
  | none =>
    dsimp only
    cases Builtin.ofName? name with
    | some b => exact .pure _
    | none => exact .pure _

theorem scopeAccess (name branch : String) : Quiet (scopeAccess name branch) := by
  refine .bind (.lookup name) fun v => ?_
  cases v with
  | enum id =>
    refine .bind (.enum? id) fun o => ?_
    cases o with
    | none => exact .pure _
    | some type =>
      dsimp only
      cases type.branches.lookup branch with
      | none => exact .pure _
      | some w => exact .pure w
  | _ => exact .pure _

theorem readElement (container key : Value) : Quiet (readElement container key) :=
  .bind .heap fun _ => .pure _

theorem putLines (values : List Value) : Quiet (putLines values) := by
  induction values with
  | nil => exact .pure ()
  | cons value rest ih => exact .bind (.render value) fun _ => .bind (.onSink _) fun _ => ih

theorem lengthOf (value : Value) : Quiet (lengthOf value) := by
  cases value with
  | array id | hash id => exact .bind .heap fun _ => .pure _
  | _ => exact .pure _

theorem firstOf (value : Value) : Quiet (firstOf value) := by
  cases value with
  | array id => exact .bind .heap fun _ => .onHeap _
  | _ => exact .pure _

theorem lastOf (value : Value) : Quiet (lastOf value) := by
  cases value with
  | array id => exact .bind .heap fun _ => .onHeap _
  | _ => exact .pure _

theorem restOf (value : Value) : Quiet (restOf value) := by
  cases value with
  | array id =>
    refine .bind .heap fun h => ?_
    cases (h.array id).toList with
    | nil => exact .pure _
    | cons first tail => exact .onHeap _
  | _ => exact .pure _

theorem pushOnto (value item : Value) : Quiet (pushOnto value item) := by
  cases value with
  | array id => exact .bind .heap fun _ => .onHeap _
  | _ => exact .pure _

theorem time (host : Host) : Quiet (time host) := .bind (.draw _) fun _ => .pure _

theorem random (host : Host) (args : List Value) : Quiet (random host args) := by
  unfold Eval.random
  split
  · exact .bind (.draw _) fun _ => .pure _
  · split
    · exact .bind (.draw _) fun _ => .pure _
    · exact .pure _
  · exact .pure _

theorem exitWith (args : List Value) : Quiet (exitWith args) := by
  unfold Eval.exitWith
  split
  · exact .exit _
  · split
    · exact .exit _
    · exact .pure _
  · exact .pure _

theorem findPlugin (host : Host) (value : Value) : Quiet (findPlugin host value) := by
  unfold Eval.findPlugin
  split
  · split
    · exact .pure _
    · exact .pure _
  · exact .pure _

theorem applyBuiltin (host : Host) (b : Builtin) (args : List Value) :
    Quiet (applyBuiltin host b args) := by
  unfold Eval.applyBuiltin
  split
  · cases b with
    | len => exact .lengthOf _
    | first => exact .firstOf _
    | last => exact .lastOf _
    | rest => exact .restOf _
    | push => exact .pushOnto _ _
    | puts => exact .bind (.putLines args) fun _ => .bind (.onSink _) fun _ => .pure _
    | time => exact .time host
    | rand => exact .random host args
    | args => exact .onHeap _
    | exit => exact .exitWith args
    | plugin => exact .findPlugin host _
    | type => exact .pure _
  · exact .pure _

/-- A quiet step leaves the scopes, the definitions and the frame alone. -/
theorem left_eq {α : Type} {step : Eval α} (h : Quiet step) (m : Machine) :
    (left (step m)).store.scopes = m.store.scopes ∧
    (left (step m)).store.definitions = m.store.definitions ∧
    Frame.of (left (step m)) = Frame.of m := by
  induction h generalizing m with
  | bind h hn ih ihn =>
    have hm := ih m
    rw [bind_run]
    split
    · rename_i a between hs
      rw [hs] at hm
      obtain ⟨hscopes, hdefinitions, hframe⟩ := ihn a between
      exact ⟨hscopes.trans hm.1, hdefinitions.trans hm.2.1, hframe.trans hm.2.2⟩
    · rename_i stop between hs
      rw [hs] at hm
      exact hm
  | onHeap op => exact ⟨m.store.onHeap_scopes op, m.store.onHeap_definitions op, rfl⟩
  | callMethod receiver method args =>
    exact ⟨m.store.onHeap_scopes _, m.store.onHeap_definitions _, rfl⟩
  | onSink op =>
    simp only [Eval.onSink]
    split <;> exact ⟨rfl, rfl, rfl⟩
  | _ => exact ⟨rfl, rfl, rfl⟩

end Quiet

end Eval

end ScriptLang
