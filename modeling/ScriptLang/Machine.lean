-- The state of a running program and the steps that everything else is made of. A step gives
-- a result or stops the run, and in both cases leaves a state behind.
import ScriptLang.Store
import ScriptLang.Value.Method
import ScriptLang.Host
import ScriptLang.Host.Sink

namespace ScriptLang

/-- What ends a run at once, past all the code that is running. -/
inductive Fatal where
  | stackOverflow (limit : Nat)
  | exit (code : Int)
  | output (reason : SinkError)
  deriving DecidableEq, Repr

def Fatal.message : Fatal → String
  | stackOverflow limit =>
    "stack overflow: maximum call depth of " ++ Nat.repr limit ++ " exceeded"
  | exit code => "program exited with status " ++ toString code
  | output reason => "failed to write program output: " ++ reason.message

/-- Why a run stopped without a result. -/
inductive Stop where
  | fatal (reason : Fatal)
  /-- The run was given too few steps. -/
  | outOfFuel
  deriving DecidableEq, Repr

/-- The state of a running program. -/
structure Machine where
  store : Store
  /-- The innermost scope of the running code. -/
  scope : ScopeId
  /-- How many calls are open. -/
  depth : Nat
  /-- The files that are being imported, the innermost first. -/
  imports : List String
  sink : Sink
  inputs : Inputs

/-- A step of a run. -/
abbrev Eval := EStateM Stop Machine

/-- The state before a program: one empty scope. -/
def Machine.start (host : Host) (sink : Sink) (seed : UInt64) : Machine :=
  let scopes := Scopes.empty.newGlobal
  { store := { Store.empty with
      scopes := scopes.2
      definitions := { Definitions.empty with plugins := host.plugins.toArray } }
    scope := scopes.1
    depth := 0
    imports := []
    sink
    inputs := ⟨host.generator.seeded seed, 0⟩ }

namespace Eval

/-- Ends the run. -/
def fail {α : Type} (reason : Fatal) : Eval α := throw (.fatal reason)

/-- Ends the run because it was given too few steps. -/
def exhausted {α : Type} : Eval α := throw .outOfFuel

/-! ## The store -/

/-- The collections as they are. -/
def heap : Eval Heap := fun m => .ok m.store.heap m

/-- Runs a change of the collections. A fault becomes an error value. -/
def onHeap (op : HeapOp Value) : Eval Value
  | ⟨store, scope, depth, imports, sink, inputs⟩ =>
    let result := store.onHeap op
    .ok result.1 ⟨result.2, scope, depth, imports, sink, inputs⟩

/-- Makes an array. -/
def newArray (items : List Value) : Eval Value := onHeap (Method.newArray items)

/-- Makes a hash. -/
def newHash (object : HashObject) : Eval Value :=
  onHeap fun heap =>
    let made := heap.newHash object
    .ok (.hash made.1) made.2

/-- Changes the functions, enums and plugins. -/
def onDefinitions {α : Type} (f : Definitions → α × Definitions) : Eval α
  | ⟨⟨heap, scopes, definitions⟩, scope, depth, imports, sink, inputs⟩ =>
    let result := f definitions
    .ok result.1 ⟨⟨heap, scopes, result.2⟩, scope, depth, imports, sink, inputs⟩

/-- The text of a value. -/
def render (value : Value) : Eval String := fun m => .ok (m.store.render value) m

/-! ## Scopes -/

/-- The value that a name has in the scopes. -/
def lookup? (name : String) : Eval (Option Value) :=
  fun m => .ok (m.store.scopes.get? m.scope name) m

/-- Binds a name in the innermost scope. -/
def define (name : String) (value : Value) : Eval Unit
  | ⟨⟨heap, scopes, definitions⟩, scope, depth, imports, sink, inputs⟩ =>
    .ok () ⟨⟨heap, scopes.define scope name value, definitions⟩, scope, depth, imports, sink,
      inputs⟩

/-- Binds a name where it is bound already. -/
def assign (name : String) (value : Value) : Eval Unit
  | ⟨⟨heap, scopes, definitions⟩, scope, depth, imports, sink, inputs⟩ =>
    match scopes.owner? scope name with
    | some owner =>
      .ok () ⟨⟨heap, scopes.define owner name value, definitions⟩, scope, depth, imports, sink,
        inputs⟩
    | none => .ok () ⟨⟨heap, scopes, definitions⟩, scope, depth, imports, sink, inputs⟩

/-- Makes a scope inside another one. -/
def newScope (outer : ScopeId) : Eval ScopeId
  | ⟨⟨heap, scopes, definitions⟩, scope, depth, imports, sink, inputs⟩ =>
    let made := scopes.enclosed outer
    .ok made.1 ⟨⟨heap, made.2, definitions⟩, scope, depth, imports, sink, inputs⟩

/-- The innermost scope. -/
def currentScope : Eval ScopeId := fun m => .ok m.scope m

/-! ## What a part of a program changes and takes back -/

/-- Where a program is: its scope, its open calls and its open imports. -/
structure Frame where
  scope : ScopeId
  depth : Nat
  imports : List String

/-- The frame of a state. -/
def Frame.of (m : Machine) : Frame := ⟨m.scope, m.depth, m.imports⟩

def frame : Eval Frame := fun m => .ok (Frame.of m) m

/-- What changes around a part of a program: the scope, the number of open calls, or the files
that are being imported. -/
inductive Bracket where
  | scope (inner : ScopeId)
  | call
  | importing (path : String)

namespace Bracket

/-- The state in which the part starts. -/
def enter : Bracket → Machine → Machine
  | scope inner, m => { m with scope := inner }
  | call, m => { m with depth := m.depth + 1 }
  | importing path, m => { m with imports := path :: m.imports }

/-- The state behind the part. A scope was put aside and comes back; of the open calls one is
taken off, and of the imports the last one, whatever they are by now. -/
def leave (b : Bracket) (before : Machine) (m : Machine) : Machine :=
  match b with
  | scope _ => { m with scope := before.scope }
  | call => { m with depth := m.depth - 1 }
  | importing _ => { m with imports := m.imports.tail }

end Bracket

/-- Runs a step inside a bracket, and leaves the bracket whatever comes of the step. -/
def within {α : Type} (b : Bracket) (step : Eval α) : Eval α := fun m =>
  match step (b.enter m) with
  | .ok a after => .ok a (b.leave m after)
  | .error stop after => .error stop (b.leave m after)

/-! ## Output and input -/

/-- Uses the sink. A failure ends the run. -/
def onSink (op : EStateM SinkError Sink Unit) : Eval Unit
  | ⟨store, scope, depth, imports, sink, inputs⟩ =>
    match op sink with
    | .ok _ sink => .ok () ⟨store, scope, depth, imports, sink, inputs⟩
    | .error reason sink =>
      .error (.fatal (.output reason)) ⟨store, scope, depth, imports, sink, inputs⟩

/-- Takes a random number or the time from outside. -/
def draw {α : Type} (f : Inputs → α × Inputs) : Eval α := fun m =>
  let drawn := f m.inputs
  .ok drawn.1 { m with inputs := drawn.2 }

end Eval

end ScriptLang
