-- What a step sees of the functions. Functions show in texts by their headings only, so a quiet
-- step does the same in a state with other functions as long as they have the same headings.
import ScriptLang.Proofs.Quiet

namespace ScriptLang

/-! ## Texts -/

namespace Definitions

/-- The definitions with other functions. -/
def withFunctions (d : Definitions) (functions : Array Closure) : Definitions :=
  { d with functions }

/-- The headings of the functions. -/
def headings (functions : Array Closure) : Array String :=
  functions.map fun closure => closure.literal.heading

variable {d : Definitions} {functions : Array Closure}

theorem scalarText_function_run (d : Definitions) (id : FunctionId) :
    d.scalarText (.function id) = match d.functions[id.index]? with
      | some closure => closure.literal.heading
      | none => "" := rfl

theorem scalarText_function (d : Definitions) (id : FunctionId) :
    d.scalarText (.function id) = (headings d.functions)[id.index]?.getD "" := by
  rw [scalarText_function_run]
  unfold headings
  rw [Array.getElem?_map]
  cases d.functions[id.index]? <;> rfl

theorem scalarText_withFunctions (h : headings functions = headings d.functions) (v : Value) :
    (d.withFunctions functions).scalarText v = d.scalarText v := by
  cases v with
  | function id =>
    rw [scalarText_function, scalarText_function]
    change (headings functions)[id.index]?.getD "" = _
    rw [h]
  | _ => rfl

theorem renderWithin_withFunctions (h : headings functions = headings d.functions) (heap : Heap)
    (depth : Nat) (above : List OpenCollection) (v : Value) :
    (d.withFunctions functions).renderWithin heap depth above v =
      d.renderWithin heap depth above v := by
  induction depth generalizing above v with
  | zero => rfl
  | succ depth ih =>
    have hitem (open' : OpenCollection) :
        (d.withFunctions functions).renderWithin heap depth (open' :: above) =
          d.renderWithin heap depth (open' :: above) := funext (ih (open' :: above))
    unfold renderWithin
    split
    · simp only [hitem]
    · simp only [hitem]
    · exact scalarText_withFunctions h _

theorem render_withFunctions (h : headings functions = headings d.functions) :
    (d.withFunctions functions).render = d.render :=
  funext fun heap => funext fun v => renderWithin_withFunctions h heap _ _ v

/-- The methods of arrays are the only ones that write texts of functions. -/
theorem call_withFunctions (h : headings functions = headings d.functions) (receiver : Value)
    (method : String) (args : List Value) :
    Method.call (d.withFunctions functions) receiver method args =
      Method.call d receiver method args := by
  cases receiver with
  | array id =>
    change Method.ofArray (d.withFunctions functions) id method args =
      Method.ofArray d id method args
    unfold Method.ofArray
    rw [render_withFunctions h]
  | _ => rfl

end Definitions

/-! ## Steps -/

namespace Machine

/-- The functions that a program has made so far. -/
def functions (m : Machine) : Array Closure := m.store.definitions.functions

/-- The state with other functions. -/
def withFunctions (m : Machine) (functions : Array Closure) : Machine :=
  { m with store := { m.store with
      definitions := m.store.definitions.withFunctions functions } }

end Machine

namespace Eval

variable {α β : Type}

/-- A result with other functions in its state. -/
def leftWith (functions : Array Closure) :
    EStateM.Result Stop Machine α → EStateM.Result Stop Machine α
  | .ok a m => .ok a (m.withFunctions functions)
  | .error stop m => .error stop (m.withFunctions functions)

theorem onHeap_withFunctions (op : HeapOp Value) (m : Machine) (functions : Array Closure) :
    onHeap op (m.withFunctions functions) = leftWith functions (onHeap op m) := by
  obtain ⟨⟨heap, scopes, definitions⟩, scope, depth, imports, sink, inputs⟩ := m
  simp only [onHeap, Store.onHeap, Machine.withFunctions]
  cases op heap <;> rfl

theorem callMethod_run (receiver : Value) (method : String) (args : List Value) (m : Machine) :
    callMethod receiver method args m =
      onHeap (Method.call m.store.definitions receiver method args) m := rfl

/-- A quiet step does the same with other functions of the same headings. -/
theorem Quiet.withFunctions {step : Eval α} (hq : Quiet step) {m : Machine}
    {functions : Array Closure}
    (h : Definitions.headings functions = Definitions.headings m.functions) :
    step (m.withFunctions functions) = leftWith functions (step m) := by
  induction hq generalizing m with
  | bind hs hn ih ihn =>
    have hkept := (hs.left_eq m).2.1
    rw [bind_run, bind_run, ih h]
    rename_i step next
    cases hm : step m with
    | error stop between => rfl
    | ok a between =>
      rw [hm] at hkept
      have hfunctions : between.functions = m.functions := congrArg Definitions.functions hkept
      exact ihn a (hfunctions ▸ h)
  | onHeap op => exact onHeap_withFunctions op m functions
  | callMethod receiver method args =>
    rw [callMethod_run, callMethod_run]
    change Eval.onHeap (Method.call (m.store.definitions.withFunctions functions) _ _ _) _ = _
    rw [Definitions.call_withFunctions h receiver method args]
    exact onHeap_withFunctions _ m functions
  | render value =>
    have hrender := congrFun (Definitions.render_withFunctions h) m.store.heap
    exact congrArg (EStateM.Result.ok · (m.withFunctions functions)) (congrFun hrender value)
  | onSink op =>
    simp only [Eval.onSink, Machine.withFunctions]
    cases op m.sink <;> rfl
  | _ => rfl

end Eval

end ScriptLang
