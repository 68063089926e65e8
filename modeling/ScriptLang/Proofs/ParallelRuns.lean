-- Two runs side by side. Their programs are alike, and the second host may allow more calls than
-- the first. As long as the first run does not end because of too many calls, the two take the
-- same steps: they come to the same result, and their states differ only in where the functions
-- of the program are written.
import ScriptLang.Proofs.Alike
import ScriptLang.Proofs.Frames
import ScriptLang.Proofs.Headings

namespace ScriptLang

open Eval

/-! ## States that are alike -/

/-- Functions that are made in the same scope from literals that are alike. -/
structure Closure.Alike (P : Position → Position → Prop) (c c' : Closure) : Prop where
  scope : c'.scope = c.scope
  literal : c.literal.Alike P c'.literal

/-- Tables of functions that are alike, each at its own index. -/
structure Closure.SameTable (P : Position → Position → Prop) (fs gs : Array Closure) : Prop where
  size : gs.size = fs.size
  alike : ∀ i : Nat, Option.Rel (Closure.Alike P) fs[i]? gs[i]?

namespace Closure.SameTable

variable {P : Position → Position → Prop} {fs gs : Array Closure}

theorem refl (hP : ∀ p, P p p) (fs : Array Closure) : SameTable P fs fs := by
  refine ⟨rfl, fun i => ?_⟩
  cases fs[i]? with
  | none => exact .none
  | some c => exact .some ⟨rfl, .refl hP c.literal⟩

theorem push (h : SameTable P fs gs) {c c' : Closure} (hc : c.Alike P c') :
    SameTable P (fs.push c) (gs.push c') := by
  refine ⟨by simp [h.size], fun i => ?_⟩
  rw [Array.getElem?_push, Array.getElem?_push, h.size]
  split
  · exact .some hc
  · exact h.alike i

theorem headings_eq (h : SameTable P fs gs) :
    Definitions.headings gs = Definitions.headings fs := by
  unfold Definitions.headings
  refine Array.ext_getElem? fun i => ?_
  rw [Array.getElem?_map, Array.getElem?_map]
  have hi := h.alike i
  generalize fs[i]? = o at hi
  generalize gs[i]? = o' at hi
  cases hi with
  | none => rfl
  | some hc => exact congrArg some hc.literal.heading_eq.symm

theorem eq (h : SameTable Eq fs gs) : gs = fs := by
  refine Array.ext_getElem? fun i => ?_
  have hi := h.alike i
  generalize fs[i]? = o at hi
  generalize gs[i]? = o' at hi
  cases hi with
  | none => rfl
  | @some c c' hc =>
    obtain ⟨hscope, p, q, hl⟩ := hc
    have hliteral := (Expr.function.inj (Node.expr.inj hl.eq)).1
    cases c
    cases c'
    simp_all

end Closure.SameTable

/-- States that differ only in where their functions are written. -/
inductive Machine.Alike (P : Position → Position → Prop) (m : Machine) : Machine → Prop
  | intro (functions : Array Closure) (h : Closure.SameTable P m.functions functions) :
      Machine.Alike P m (m.withFunctions functions)

theorem Machine.Alike.refl {P : Position → Position → Prop} (hP : ∀ p, P p p) (m : Machine) :
    m.Alike P m := .intro m.functions (.refl hP _)

theorem Machine.Alike.eq {m m' : Machine} (h : m.Alike Eq m') : m' = m := by
  obtain ⟨functions, h⟩ := h
  rw [h.eq]
  rfl

theorem Machine.Alike.enter {P : Position → Position → Prop} {m m' : Machine} (h : m.Alike P m')
    (b : Bracket) : (b.enter m).Alike P (b.enter m') := by
  obtain ⟨functions, h⟩ := h
  cases b <;> exact .intro (m := Bracket.enter _ m) functions h

theorem Machine.Alike.leave {P : Position → Position → Prop} {before before' m m' : Machine}
    (h : m.Alike P m') (hb : before.Alike P before') (b : Bracket) :
    (b.leave before m).Alike P (b.leave before' m') := by
  obtain ⟨_, -⟩ := hb
  obtain ⟨functions, h⟩ := h
  cases b <;> exact .intro (m := Bracket.leave _ before m) functions h

/-! ## Results that agree -/

/-- What two runs may differ in: the places in their programs, as `Places` relates them, and the
limit on open calls, which the second host may raise. -/
structure Difference where
  Places : Position → Position → Prop
  host : Host
  limit : Nat
  places_refl : ∀ p, Places p p
  le_limit : host.maxCallDepth ≤ limit

namespace Difference

/-- The host of the second run. -/
def raised (D : Difference) : Host := { D.host with maxCallDepth := D.limit }

/-- Only the places differ. -/
def ofPlaces (host : Host) : Difference where
  Places _ _ := True
  host := host
  limit := host.maxCallDepth
  places_refl _ := trivial
  le_limit := Nat.le_refl _

/-- Only the limits differ. -/
def ofLimits {host : Host} {limit : Nat} (h : host.maxCallDepth ≤ limit) : Difference where
  Places := Eq
  host := host
  limit := limit
  places_refl _ := rfl
  le_limit := h

variable {α β γ δ : Type}

/-- The results of two runs agree. Where the second host allows more calls, nothing is said of a
first run that ends because of too many calls. -/
inductive Agrees (D : Difference) (R : α → β → Prop) :
    EStateM.Result Stop Machine α → EStateM.Result Stop Machine β → Prop
  | ok {a : α} {b : β} {m m' : Machine} (h : R a b) (hm : m.Alike D.Places m') :
      Agrees D R (.ok a m) (.ok b m')
  | stop (reason : Stop) {m m' : Machine} (hm : m.Alike D.Places m') :
      Agrees D R (.error reason m) (.error reason m')
  | overflow (h : D.host.maxCallDepth < D.limit) (m : Machine)
      (r : EStateM.Result Stop Machine β) :
      Agrees D R (.error (.fatal (.stackOverflow D.host.maxCallDepth)) m) r

/-- Evaluations that agree from all states that are alike. -/
def Matches (D : Difference) (R : α → β → Prop) (x : Eval α) (y : Eval β) : Prop :=
  ∀ m m', m.Alike D.Places m' → D.Agrees R (x m) (y m')

end Difference

namespace Difference.Matches

variable {D : Difference} {α β γ δ : Type} {R : α → β → Prop} {S : γ → δ → Prop}

theorem pure {a : α} {b : β} (h : R a b) : D.Matches R (pure a) (pure b) :=
  fun _ _ hm => .ok h hm

theorem bind {x : Eval α} {y : Eval β} {f : α → Eval γ} {g : β → Eval δ} (h : D.Matches R x y)
    (hf : ∀ a b, R a b → D.Matches S (f a) (g b)) : D.Matches S (x >>= f) (y >>= g) := by
  intro m m' hm
  have hxy := h m m' hm
  rw [bind_run, bind_run]
  generalize x m = r at hxy
  generalize y m' = r' at hxy
  cases hxy with
  | ok hab hm => exact hf _ _ hab _ _ hm
  | stop reason hm => exact .stop reason hm
  | overflow hlt m r' => exact .overflow hlt m _

/-- Evaluations that go on with one value. -/
theorem thenSame {x y : Eval α} {f : α → Eval γ} {g : α → Eval δ} (h : D.Matches Eq x y)
    (hf : ∀ a, D.Matches S (f a) (g a)) : D.Matches S (x >>= f) (y >>= g) := by
  refine h.bind ?_
  rintro a _ rfl
  exact hf a

theorem ite {c : Prop} [Decidable c] {x x' : Eval α} {y y' : Eval β}
    (h : D.Matches R x y) (h' : D.Matches R x' y') :
    D.Matches R (if c then x else x') (if c then y else y') := by
  split
  · exact h
  · exact h'

/-! ## Steps -/

theorem agrees_leftWith {m : Machine} {r : EStateM.Result Stop Machine α}
    {functions : Array Closure} (hkept : (left r).functions = m.functions)
    (hf : Closure.SameTable D.Places m.functions functions) :
    D.Agrees Eq r (leftWith functions r) := by
  cases r with
  | ok a after => exact .ok rfl (.intro functions (hkept ▸ hf))
  | error stop after => exact .stop stop (.intro functions (hkept ▸ hf))

/-- A quiet step sees functions only by their headings. -/
theorem quiet {step : Eval α} (h : Quiet step) : D.Matches Eq step step := by
  rintro m _ ⟨functions, hf⟩
  rw [h.withFunctions hf.headings_eq]
  exact agrees_leftWith (congrArg Definitions.functions (h.left_eq m).2.1) hf

/-- A step that neither sees nor makes functions. -/
theorem blind {step : Eval α}
    (h : ∀ (m : Machine) functions, step (m.withFunctions functions) = leftWith functions (step m))
    (hkept : ∀ m, (left (step m)).functions = m.functions) : D.Matches Eq step step := by
  rintro m _ ⟨functions, hf⟩
  rw [h]
  exact agrees_leftWith (hkept m) hf

theorem define (name : String) (value : Value) :
    D.Matches Eq (define name value) (define name value) :=
  blind (fun _ _ => rfl) fun _ => rfl

theorem assign (name : String) (value : Value) :
    D.Matches Eq (assign name value) (assign name value) := by
  refine blind (fun m functions => ?_) fun m => ?_
  · simp only [Eval.assign, Machine.withFunctions]
    cases m.store.scopes.owner? m.scope name <;> rfl
  · simp only [Eval.assign]
    cases m.store.scopes.owner? m.scope name <;> rfl

theorem step (op : StepOp) (name : String) : D.Matches Eq (step op name) (step op name) := by
  refine .thenSame (.quiet (.lookup? name)) fun o => ?_
  cases o with
  | none => exact .pure rfl
  | some current => exact .ite (.pure rfl) (.thenSame (.assign _ _) fun _ => .pure rfl)

theorem bindEnum (name : String) (branches : List (String × Value)) :
    D.Matches Eq (bindEnum name branches) (bindEnum name branches) := by
  have hnew : D.Matches Eq (onDefinitions (·.newEnum ⟨name, branches⟩))
      (onDefinitions (·.newEnum ⟨name, branches⟩)) := blind (fun _ _ => rfl) fun _ => rfl
  exact hnew.thenSame fun _ => .define _ _

theorem newScope (outer : ScopeId) : D.Matches Eq (newScope outer) (newScope outer) :=
  blind (fun _ _ => rfl) fun _ => rfl

theorem frame : D.Matches Eq frame frame := blind (fun _ _ => rfl) fun _ => rfl

theorem closure? (id : FunctionId) :
    D.Matches (Option.Rel (Closure.Alike D.Places)) (closure? id) (closure? id) := by
  rintro m _ ⟨functions, hf⟩
  exact .ok (hf.alike id.index) (.intro functions hf)

theorem newFunction {l l' : FunctionLiteral} (h : l.Alike D.Places l') (scope : ScopeId) :
    D.Matches Eq (onDefinitions (·.newFunction ⟨l, scope⟩))
      (onDefinitions (·.newFunction ⟨l', scope⟩)) := by
  rintro m _ ⟨functions, hf⟩
  have hid : (⟨m.functions.size⟩ : FunctionId) = ⟨functions.size⟩ := by rw [hf.size]
  exact .ok hid (.intro _ (hf.push ⟨rfl, h⟩))

theorem makeFunction {l l' : FunctionLiteral} (h : l.Alike D.Places l') :
    D.Matches Eq (makeFunction l) (makeFunction l') := by
  refine .thenSame (.quiet .currentScope) fun scope => .thenSame (.newFunction h scope) fun id => ?_
  rw [h.name_eq]
  cases l'.name with
  | none => exact .pure rfl
  | some name => exact .thenSame (.define _ _) fun _ => .pure rfl

/-! ## Brackets -/

theorem inBracket (b : Bracket) {x : Eval α} {y : Eval β} (h : D.Matches R x y) :
    D.Matches R (inBracket b x) (inBracket b y) := by
  intro m m' hm
  have hxy := h (b.enter m) (b.enter m') (hm.enter b)
  change D.Agrees R (within b x m) (within b y m')
  rw [within_eq, within_eq]
  generalize x (b.enter m) = r at hxy
  generalize y (b.enter m') = r' at hxy
  cases hxy with
  | ok hab hafter => exact .ok hab (hafter.leave hm b)
  | stop reason hafter => exact .stop reason (hafter.leave hm b)
  | overflow hlt m r' => exact .overflow hlt _ _

theorem inNewScope {x : Eval α} {y : Eval β} (h : D.Matches R x y) :
    D.Matches R (inNewScope x) (inNewScope y) :=
  .thenSame .frame fun f => .thenSame (.newScope f.scope) fun _ => .inBracket _ h

/-- A call that the first host refuses and the second one grants ends the first run because of too
many calls. -/
theorem inCall {c c' : Closure} (hc : c.scope = c'.scope) (args : List Value) {x : Eval α}
    {y : Eval β} (h : D.Matches R x y) :
    D.Matches R (inCall D.host.maxCallDepth c args x) (inCall D.limit c' args y) := by
  refine .thenSame (.pure rfl) fun _ => .thenSame .frame fun f => ?_
  rw [← hc]
  by_cases hgranted : f.depth < D.host.maxCallDepth
  · have hle := D.le_limit
    rw [if_neg (by omega), if_neg (by omega)]
    exact .thenSame (.newScope _) fun _ => .inBracket _ (.inBracket _ h)
  · rw [if_pos (by omega)]
    by_cases hsame : D.host.maxCallDepth = D.limit
    · rw [if_pos (by omega), ← hsame]
      exact fun _ _ hm => .stop _ hm
    · have hlt := Nat.lt_of_le_of_ne D.le_limit hsame
      exact fun m _ _ => .overflow hlt m _

end Difference.Matches

namespace Difference

variable (D : Difference) {eval eval' : EvalExpr Eval}

/-- The evaluations of expressions match wherever the expressions are alike. -/
def Evaluates (eval eval' : EvalExpr Eval) : Prop :=
  ∀ {e e' : Expr}, Alike D.Places (.expr e) (.expr e') → D.Matches Eq (eval e) (eval' e')

end Difference

namespace Difference.Matches

variable {D : Difference} {eval eval' : EvalExpr Eval}

/-! ## Several expressions -/

theorem fault (f : Fault) : D.Matches Eq (fault f : Eval Value) (fault f) := .pure rfl

theorem andThen {x y : Eval Value} {f g : Value → Eval Value} (h : D.Matches Eq x y)
    (hf : ∀ v, D.Matches Eq (f v) (g v)) : D.Matches Eq (andThen x f) (andThen y g) :=
  .thenSame h fun v => .ite (.pure rfl) (hf v)

theorem values (he : D.Evaluates eval eval') {es es' : List Expr}
    (h : Alike D.Places (.exprs es) (.exprs es')) :
    D.Matches Eq (values eval es) (values eval' es') := by
  induction es generalizing es' with
  | nil =>
    cases h
    exact .pure rfl
  | cons e es ih =>
    cases h with
    | exprs h hs =>
      refine .thenSame (he h) fun v => .ite (.pure rfl) (.thenSame (ih hs) fun r => ?_)
      cases r <;> exact .pure rfl

theorem withValues (he : D.Evaluates eval eval') {es es' : List Expr}
    (h : Alike D.Places (.exprs es) (.exprs es')) {f g : List Value → Eval Value}
    (hf : ∀ vs, D.Matches Eq (f vs) (g vs)) :
    D.Matches Eq (withValues eval es f) (withValues eval' es' g) := by
  refine .thenSame (.values he h) fun r => ?_
  cases r with
  | error signal => exact .pure rfl
  | ok vs => exact hf vs

/-! ## Assignments -/

theorem operate (op : BinaryOp) (l r : Value) :
    D.Matches Eq (operate op l r : Eval Value) (operate op l r) :=
  .thenSame (.quiet .heap) fun _ => .pure rfl

theorem combined (op : Option BinaryOp) (current value : Value) :
    D.Matches Eq (combined op current value : Eval Value) (combined op current value) := by
  cases op with
  | none => exact .pure rfl
  | some op => exact .operate op current value

theorem assignName (he : D.Evaluates eval eval') (name : String) (op : Option BinaryOp)
    {v v' : Expr} (h : Alike D.Places (.expr v) (.expr v')) :
    D.Matches Eq (assignName eval name op v) (assignName eval' name op v') := by
  refine .thenSame (.quiet (.lookup? name)) fun o => ?_
  cases o with
  | none => exact .fault _
  | some current =>
    refine .andThen (he h) fun value => .thenSame (.combined op current value) fun result => ?_
    exact .ite (.pure rfl) (.thenSame (.assign name result) fun _ => .pure rfl)

theorem assignElement (he : D.Evaluates eval eval') {c k v c' k' v' : Expr}
    (hc : Alike D.Places (.expr c) (.expr c')) (hk : Alike D.Places (.expr k) (.expr k'))
    (op : Option BinaryOp) (hv : Alike D.Places (.expr v) (.expr v')) :
    D.Matches Eq (assignElement eval c k op v) (assignElement eval' c' k' op v') := by
  refine .andThen (he hc) fun container => .andThen (he hk) fun key =>
    .andThen (he hv) fun value => ?_
  cases op with
  | none => exact .quiet (.onHeap _)
  | some op =>
    refine .thenSame (.quiet (.readElement container key)) fun current => .ite (.pure rfl) ?_
    refine .thenSame (.operate op current value) fun result => .ite (.pure rfl) ?_
    exact .quiet (.onHeap _)

theorem assignment (he : D.Evaluates eval eval') {t v t' v' : Expr}
    (ht : Alike D.Places (.expr t) (.expr t')) (op : Option BinaryOp)
    (hv : Alike D.Places (.expr v) (.expr v')) :
    D.Matches Eq (assignment eval t op v) (assignment eval' t' op v') := by
  have htext : t.text = t'.text := ht.sameText
  cases ht with
  | identifier name => exact .assignName he name op hv
  | index hc hk => exact .assignElement he hc hk op hv
  | _ => exact .pure (congrArg (fun text => Value.error (.invalidTarget text)) htext)

theorem deleteElement (he : D.Evaluates eval eval') {t t' : Expr}
    (ht : Alike D.Places (.expr t) (.expr t')) :
    D.Matches Eq (deleteElement eval t) (deleteElement eval' t') := by
  have htext : t.text = t'.text := ht.sameText
  cases ht with
  | index hc hk =>
    have hname := he hc
    have hcontainer := hc.sameText
    cases hc with
    | identifier name =>
      exact .andThen hname fun container => .andThen (he hk) fun key => .quiet (.onHeap _)
    | _ =>
      exact .pure (congrArg (fun text => Value.error (.deleteNotIdentifier text)) hcontainer)
  | _ => exact .pure (congrArg (fun text => Value.error (.cannotDelete text)) htext)

/-! ## Statements -/

theorem branchValues (he : D.Evaluates eval eval') {bs bs' : List (String × Expr)}
    (h : Alike D.Places (.branches bs) (.branches bs')) :
    D.Matches Eq (branchValues eval bs) (branchValues eval' bs') := by
  induction bs generalizing bs' with
  | nil =>
    cases h
    exact .pure rfl
  | cons b bs ih =>
    cases h with
    | branches name h hs =>
      refine .thenSame (he h) fun v => .ite (.pure rfl) (.thenSame (ih hs) fun r => ?_)
      cases r <;> exact .pure rfl

theorem statement (he : D.Evaluates eval eval') {s s' : Statement}
    (h : Alike D.Places (.statement s) (.statement s')) :
    D.Matches Eq (statement eval s) (statement eval' s') := by
  refine .thenSame (.pure rfl) fun _ => ?_
  cases h with
  | var name hv => exact .andThen (he hv) fun v => .thenSame (.define name v) fun _ => .pure rfl
  | assignment op ht hv => exact .assignment he ht op hv
  | @returning o o' _ _ ho =>
    cases o <;> cases o' <;> cases ho
    · exact .pure rfl
    · rename_i h hs
      exact .andThen (he h) fun v => .pure rfl
  | breaking => exact .pure rfl
  | delete ht => exact .deleteElement he ht
  | enum name hs =>
    refine .thenSame (.branchValues he hs) fun r => ?_
    cases r with
    | error signal => exact .pure rfl
    | ok branches => exact .thenSame (.bindEnum name branches) fun _ => .pure rfl
  | expression h => exact he h

theorem statements (he : D.Evaluates eval eval') (last : Value) {ss ss' : List Statement}
    (h : Alike D.Places (.statements ss) (.statements ss')) :
    D.Matches Eq (statements eval last ss) (statements eval' last ss') := by
  induction ss generalizing ss' last with
  | nil =>
    cases h
    exact .pure rfl
  | cons s ss ih =>
    cases h with
    | statements h hs =>
      exact .thenSame (.statement he h) fun v => .ite (.pure rfl) (ih v hs)

theorem block (he : D.Evaluates eval eval') {ss ss' : List Statement} (b b' : Position)
    (h : Alike D.Places (.statements ss) (.statements ss')) :
    D.Matches Eq (block eval (.mk ss b)) (block eval' (.mk ss' b')) :=
  .inNewScope (.statements he .null h)

/-! ## Loops -/

theorem signalOf {x y : Eval Value} (h : D.Matches Eq x y) :
    D.Matches Eq (signalOf x) (signalOf y) :=
  .thenSame h fun _ => .ite (.pure rfl) (.pure rfl)

theorem start (he : D.Evaluates eval eval') {i i' : Option Statement}
    (h : Alike D.Places (.statements i.toList) (.statements i'.toList)) :
    D.Matches Eq (start eval i) (start eval' i') := by
  cases i <;> cases i' <;> cases h
  · exact .pure rfl
  · rename_i h hs
    exact .signalOf (.statement he h)

theorem update (he : D.Evaluates eval eval') {u u' : Option Expr}
    (h : Alike D.Places (.exprs u.toList) (.exprs u'.toList)) :
    D.Matches Eq (update eval u) (update eval' u') := by
  cases u <;> cases u' <;> cases h
  · exact .pure rfl
  · rename_i h hs
    exact .signalOf (he h)

theorem endsBefore (he : D.Evaluates eval eval') {c c' : Option Expr}
    (h : Alike D.Places (.exprs c.toList) (.exprs c'.toList)) (result : Value) :
    D.Matches Eq (endsBefore eval c result) (endsBefore eval' c' result) := by
  cases c <;> cases c' <;> cases h
  · exact .pure rfl
  · rename_i h hs
    exact .thenSame (he h) fun v => .ite (.pure rfl) (.ite (.pure rfl) (.pure rfl))

theorem passes (he : D.Evaluates eval eval') {c u c' u' : Option Expr} {ss ss' : List Statement}
    (b b' : Position) (hc : Alike D.Places (.exprs c.toList) (.exprs c'.toList))
    (hu : Alike D.Places (.exprs u.toList) (.exprs u'.toList))
    (hs : Alike D.Places (.statements ss) (.statements ss')) (fuel : Nat) (result : Value) :
    D.Matches Eq (passes eval c u (.mk ss b) fuel result)
      (passes eval' c' u' (.mk ss' b') fuel result) := by
  induction fuel generalizing result with
  | zero => exact .quiet .exhausted
  | succ fuel ih =>
    refine .thenSame (.endsBefore he hc result) fun o => ?_
    cases o with
    | some v => exact .pure rfl
    | none =>
      refine .thenSame (.block he b b' hs) fun v => ?_
      cases v with
      | breaking => exact .pure rfl
      | _ =>
        refine .ite (.pure rfl) (.thenSame (.update he hu) fun o => ?_)
        cases o with
        | some signal => exact .pure rfl
        | none => exact ih _

theorem loop (he : D.Evaluates eval eval') (fuel : Nat) {i i' : Option Statement}
    {c u c' u' : Option Expr} {ss ss' : List Statement} (b b' : Position)
    (hi : Alike D.Places (.statements i.toList) (.statements i'.toList))
    (hc : Alike D.Places (.exprs c.toList) (.exprs c'.toList))
    (hu : Alike D.Places (.exprs u.toList) (.exprs u'.toList))
    (hs : Alike D.Places (.statements ss) (.statements ss')) :
    D.Matches Eq (loop fuel eval i c u (.mk ss b)) (loop fuel eval' i' c' u' (.mk ss' b')) := by
  refine .inNewScope (.thenSame (.start he hi) fun o => ?_)
  cases o with
  | some signal => exact .pure rfl
  | none => exact .passes he b b' hc hu hs fuel .null

/-! ## Calls -/

theorem bindParameters (he : D.Evaluates eval eval') {p q : Position} {ps ps' : List Parameter}
    (h : Alike D.Places (.parameters p ps) (.parameters q ps')) (args : List Value) :
    D.Matches Eq (bindParameters eval ps args) (bindParameters eval' ps' args) := by
  induction ps generalizing ps' args with
  | nil =>
    cases h
    exact .pure rfl
  | cons parameter ps ih =>
    cases args with
    | cons arg args =>
      cases h with
      | required name hs | defaulted name _ hs =>
        exact .thenSame (.define name arg) fun _ => ih hs args
    | nil =>
      cases h with
      | required name hs => exact .thenSame (.define name .null) fun _ => ih hs []
      | defaulted name h hs =>
        refine .thenSame (he h) fun v => .ite (.pure rfl) ?_
        exact .thenSame (.define name v) fun _ => ih hs []

theorem callBody (he : D.Evaluates eval eval') {l l' : FunctionLiteral}
    (h : l.Alike D.Places l') (args : List Value) :
    D.Matches Eq (callBody eval l args) (callBody eval' l' args) := by
  obtain ⟨p, q, h⟩ := h
  cases h with
  | function name hs hb =>
    refine .thenSame (.bindParameters he hs args) fun o => ?_
    cases o with
    | some signal => exact .pure rfl
    | none => exact .statements he .null hb

theorem callClosure (he : D.Evaluates eval eval') {c c' : Closure} (h : c.Alike D.Places c')
    (args : List Value) :
    D.Matches Eq (callClosure D.host eval c args) (callClosure D.raised eval' c' args) := by
  unfold Eval.callClosure
  dsimp only
  rw [h.literal.accepts_eq, h.literal.required_eq, h.literal.length_eq]
  refine .ite ?_ (.fault _)
  exact .thenSame (.inCall h.scope.symm args (.callBody he h.literal args)) fun _ => .pure rfl

theorem apply (he : D.Evaluates eval eval') (callee : Value) (args : List Value) :
    D.Matches Eq (apply D.host eval callee args) (apply D.raised eval' callee args) := by
  cases callee with
  | function id =>
    refine .bind (.closure? id) fun o o' h => ?_
    cases h with
    | none => exact .fault _
    | some hc => exact .callClosure he hc args
  | builtin b => exact .quiet (.applyBuiltin D.host b args)
  | _ => exact .fault _

/-! ## Imports -/

theorem importFile (he : D.Evaluates eval eval') (file : String) :
    D.Matches Eq (importFile D.host eval file) (importFile D.raised eval' file) := by
  have hload : D.Matches Eq (inImport D.host file (Eval.statements eval .null))
      (inImport D.raised file (Eval.statements eval' .null)) := by
    refine .thenSame .frame fun f => ?_
    have hsame : D.raised.load f.imports file = D.host.load f.imports file := rfl
    rw [hsame]
    cases D.host.load f.imports file with
    | error reason => exact .pure rfl
    | ok p =>
      have hrun := Matches.statements he .null (.refl D.places_refl (.statements p))
      exact .thenSame (.inBracket _ hrun) fun _ => .pure rfl
  refine .thenSame hload fun r => ?_
  cases r with
  | error reason => exact .fault _
  | ok v => exact .pure rfl

theorem importValue (he : D.Evaluates eval eval') (v : Value) :
    D.Matches Eq (importValue D.host eval v) (importValue D.raised eval' v) := by
  cases v with
  | string file => exact .importFile he file
  | _ => exact .fault _

/-! ## Expressions -/

theorem hashPairs (he : D.Evaluates eval eval') (object : HashObject)
    {ps ps' : List (Expr × Expr)} (h : Alike D.Places (.pairs ps) (.pairs ps')) :
    D.Matches Eq (hashPairs eval object ps) (hashPairs eval' object ps') := by
  induction ps generalizing ps' object with
  | nil =>
    cases h
    exact .pure rfl
  | cons p ps ih =>
    cases h with
    | pairs hk hv hs =>
      refine .thenSame (he hk) fun key => .ite (.pure rfl) (.ite (.pure rfl) ?_)
      exact .thenSame (he hv) fun value => .ite (.pure rfl) (ih _ hs)

theorem exprStep (he : D.Evaluates eval eval') (fuel : Nat) {e e' : Expr}
    (h : Alike D.Places (.expr e) (.expr e')) :
    D.Matches Eq (exprStep D.host fuel eval e) (exprStep D.raised fuel eval' e') := by
  cases h with
  | integer | float | string | boolean | null => exact .pure rfl
  | identifier name => exact .quiet (.lookup name)
  | unary op h => exact .andThen (he h) fun v => .pure rfl
  | binary op hl hr => exact .andThen (he hl) fun l => .andThen (he hr) fun r => .operate op l r
  | step op name => exact .step op name
  | assign op ht hv => exact .assignment he ht op hv
  | call hf ha =>
    exact .andThen (he hf) fun callee => .withValues he ha fun args => .apply he callee args
  | index hc hk =>
    exact .andThen (he hc) fun c => .andThen (he hk) fun k => .quiet (.readElement c k)
  | array hs => exact .withValues he hs fun items => .quiet (.onHeap _)
  | hash hs =>
    refine .thenSame (.hashPairs he .empty hs) fun r => ?_
    cases r with
    | error signal => exact .pure rfl
    | ok object => exact .quiet (.onHeap _)
  | oneSided hc hs => exact .andThen (he hc) fun v => .ite (.block he _ _ hs) (.pure rfl)
  | twoSided hc hs _ ht =>
    exact .andThen (he hc) fun v => .ite (.block he _ _ hs) (.block he _ _ ht)
  | ternary hc ha hb => exact .andThen (he hc) fun v => .ite (he ha) (he hb)
  | elvis hl hr => exact .andThen (he hl) fun v => .ite (.pure rfl) (he hr)
  | loop hi hc hu hs => exact .loop he fuel _ _ hi hc hu hs
  | function name hs hb hd hp => exact .makeFunction ⟨_, _, .function name hs hb hd hp⟩
  | methodCall method hr ha =>
    exact .andThen (he hr) fun r => .withValues he ha fun args => .quiet (.callMethod r method args)
  | scopeAccess name branch => exact .quiet (.scopeAccess name branch)
  | importFile h => exact .andThen (he h) fun v => .importValue he v

/-- Expressions that are alike match. The induction is on how deep evaluation may nest. -/
theorem expr (fuel : Nat) : D.Evaluates (expr D.host fuel) (expr D.raised fuel) := by
  induction fuel with
  | zero => exact fun _ => .quiet .exhausted
  | succ fuel ih =>
    intro e e' h
    change D.Matches Eq (nested fuel _) (nested fuel _)
    rw [nested_run, nested_run]
    exact .thenSame (.pure rfl) fun _ => .exprStep ih fuel h

theorem program (fuel : Nat) {p p' : Program}
    (h : Alike D.Places (.statements p) (.statements p')) :
    D.Matches Eq (program D.host fuel p) (program D.raised fuel p') :=
  .thenSame (.statements (.expr fuel) .null h) fun _ => .pure rfl

end Difference.Matches

/-! ## Raising the limit on open calls -/

/-- A result that is no stack overflow agrees, under equal places, with one result only. -/
theorem Difference.Agrees.eq {host : Host} {limit : Nat} {h : host.maxCallDepth ≤ limit} {α : Type}
    {r r' : EStateM.Result Stop Machine α} (hr : (Difference.ofLimits h).Agrees Eq r r')
    (hover : overflow? r = none) : r' = r := by
  cases hr with
  | ok hab hm => rw [hab, Machine.Alike.eq hm]
  | stop reason hm => rw [Machine.Alike.eq hm]
  | overflow => cases hover

/-- A run that does not end because of too many calls is the same on a host that allows more of
them: the same result, and the same output, scopes and collections in the state it leaves. -/
theorem Eval.raised_limit_keeps_run {host : Host} {limit : Nat} (hle : host.maxCallDepth ≤ limit)
    (fuel : Nat) (p : Program) (m : Machine)
    (h : overflow? ((program host fuel p : Eval Value) m) = none) :
    (program { host with maxCallDepth := limit } fuel p : Eval Value) m =
      (program host fuel p : Eval Value) m := by
  let D := Difference.ofLimits hle
  have hsame : Alike D.Places (.statements p) (.statements p) := .refl D.places_refl _
  exact (Difference.Matches.program fuel hsame m m (.refl D.places_refl m)).eq h

/-- A call inside a call needs a limit of two, and more than that makes no difference. -/
theorem Eval.nested_calls_need_two :
    let allowing (limit : Nat) : Host := { Host.plain with maxCallDepth := limit }
    let m := Machine.start Host.plain .unlimited 0
    let callOf (body : Expr) : Expr :=
      .call (.function (.mk none [] (.mk [.expression body .start] .start)) .start) [] .start
    let p : Program := [.expression (callOf (callOf (.integer 7 .start))) .start]
    overflow? ((program (allowing 1) 9 p : Eval Value) m) = some 1 ∧
    overflow? ((program (allowing 2) 9 p : Eval Value) m) = none ∧
    (program (allowing 5) 9 p : Eval Value) m = (program (allowing 2) 9 p : Eval Value) m := by
  intro allowing m callOf p
  have hrun : overflow? ((program (allowing 2) 9 p : Eval Value) m) = none := rfl
  have hle : (allowing 2).maxCallDepth ≤ 5 := by decide
  exact ⟨rfl, hrun, raised_limit_keeps_run hle 9 p m hrun⟩

end ScriptLang
