-- Scopes: the names that a stretch of program has bound, and the scope around it. A name is
-- looked up from a scope outward.
import ScriptLang.Value

namespace ScriptLang

/-- Names a scope. -/
structure ScopeId where
  index : Nat
  deriving DecidableEq, Repr

/-- The bindings of a scope and the scope around it. -/
structure Scope where
  bindings : List (String × Value)
  outer : Option ScopeId

namespace Scope

/-- Whether a name is bound in the scope itself. -/
def binds (scope : Scope) (name : String) : Bool :=
  (scope.bindings.lookup name).isSome

/-- The bindings with a name bound to a value, in its old place if it has one. -/
def bind (name : String) (value : Value) : List (String × Value) → List (String × Value)
  | [] => [(name, value)]
  | (other, old) :: rest =>
    if other = name then (name, value) :: rest else (other, old) :: bind name value rest

/-- The names of a scope in order. -/
def names (scope : Scope) : List String :=
  (scope.bindings.map Prod.fst).mergeSort (fun a b => decide (a ≤ b))

end Scope

/-- All scopes that a program has made. A scope comes after the scope around it. -/
structure Scopes where
  all : Array Scope

namespace Scopes

def empty : Scopes := ⟨#[]⟩

/-- A new scope with nothing around it. -/
def newGlobal (scopes : Scopes) : ScopeId × Scopes :=
  (⟨scopes.all.size⟩, ⟨scopes.all.push ⟨[], none⟩⟩)

/-- A new scope inside another one. -/
def enclosed (scopes : Scopes) (outer : ScopeId) : ScopeId × Scopes :=
  (⟨scopes.all.size⟩, ⟨scopes.all.push ⟨[], some outer⟩⟩)

/-- The nearest scope that binds a name, going outward at most so many times. -/
def ownerWithin (scopes : Scopes) (name : String) : Nat → ScopeId → Option ScopeId
  | 0, _ => none
  | steps + 1, id =>
    match scopes.all[id.index]? with
    | none => none
    | some scope =>
      if scope.binds name then some id
      else
        match scope.outer with
        | some outer => scopes.ownerWithin name steps outer
        | none => none

/-- The nearest scope that binds a name. A scope has at most as many scopes around it as there
are scopes before it. -/
def owner? (scopes : Scopes) (id : ScopeId) (name : String) : Option ScopeId :=
  scopes.ownerWithin name (id.index + 1) id

/-- The value of a name in the scope itself. -/
def local? (scopes : Scopes) (id : ScopeId) (name : String) : Option Value :=
  match scopes.all[id.index]? with
  | some scope => scope.bindings.lookup name
  | none => none

/-- The value of a name, looked up outward. -/
def get? (scopes : Scopes) (id : ScopeId) (name : String) : Option Value :=
  (scopes.owner? id name).bind (fun owner => scopes.local? owner name)

/-- Binds a name in the scope itself. -/
def define (scopes : Scopes) (id : ScopeId) (name : String) (value : Value) : Scopes :=
  ⟨scopes.all.modify id.index fun scope =>
    { scope with bindings := Scope.bind name value scope.bindings }⟩

/-- Binds a name in the nearest scope that binds it, or does nothing if none does. -/
def assign? (scopes : Scopes) (id : ScopeId) (name : String) (value : Value) : Option Scopes :=
  (scopes.owner? id name).map (fun owner => scopes.define owner name value)

/-- Whether a name is bound in the scope itself. -/
def containsLocal (scopes : Scopes) (id : ScopeId) (name : String) : Bool :=
  (scopes.local? id name).isSome

/-- The names of a scope and of the scopes around it, the innermost first. -/
def chainNames (scopes : Scopes) : Nat → ScopeId → List (List String)
  | 0, _ => []
  | steps + 1, id =>
    match scopes.all[id.index]? with
    | none => []
    | some scope =>
      scope.names ::
        match scope.outer with
        | some outer => scopes.chainNames steps outer
        | none => []

/-- The names that can be seen from a scope, as a listing for the host. -/
def listing (scopes : Scopes) (id : ScopeId) : String :=
  let chain := scopes.chainNames (id.index + 1) id
  "Environment(" ++ Text.bracketed (chain.map fun names => Text.bracketed (names.map Text.escaped))
    ++ ")"

end Scopes

end ScriptLang
