-- What every evaluation has in common. An evaluation is made of the steps in `Taken`, put one
-- after the other, and of evaluations in a new scope, in a call and in an import. So a relation
-- between evaluations in two monads that holds of the steps, and goes through these, holds of
-- every expression, statement, call and program.
import ScriptLang.Eval.Expression
import ScriptLang.Proofs.HashHistory

namespace ScriptLang

open Eval MonadMachine

/-! ## The steps -/

/-- The steps that an evaluation takes, each with what holds of its result. The values that a
step gets, and may put into the store, are `Kept`; those that it makes or finds are `Given`. -/
inductive Taken (host : Host) (Kept Given : Value → Prop) :
    {α : Type} → Eval α → (α → Prop) → Prop where
  | exhausted {α : Type} (P : α → Prop) : Taken host Kept Given exhausted P
  | heap : Taken host Kept Given heap fun _ => True
  | lookup? (name : String) : Taken host Kept Given (lookup? name) fun _ => True
  | closure? (id : FunctionId) : Taken host Kept Given (closure? id) fun _ => True
  | lookup (name : String) : Taken host Kept Given (lookup name) Given
  | scopeAccess (name branch : String) : Taken host Kept Given (scopeAccess name branch) Given
  | readElement (container key : Value) : Taken host Kept Given (readElement container key) Given
  | step (op : StepOp) (name : String) : Taken host Kept Given (step op name) Given
  | makeFunction (literal : FunctionLiteral) : Taken host Kept Given (makeFunction literal) Given
  | eraseElement (container key : Value) :
      Taken host Kept Given (eraseElement container key) Given
  | writeElement (container key : Value) {value : Value} (h : Kept value) :
      Taken host Kept Given (writeElement container key value) Given
  | define (name : String) {value : Value} (h : Kept value) :
      Taken host Kept Given (define name value) fun _ => True
  | assign (name : String) {value : Value} (h : Kept value) :
      Taken host Kept Given (assign name value) fun _ => True
  | bindEnum (name : String) {branches : List (String × Value)} (h : ∀ b ∈ branches, Kept b.2) :
      Taken host Kept Given (bindEnum name branches) fun _ => True
  | newArray {items : List Value} (h : ∀ v ∈ items, Kept v) :
      Taken host Kept Given (newArray items) Given
  | newHash {object : HashObject} (h : object.Holds Kept) (hb : object.Built) :
      Taken host Kept Given (newHash object) Given
  | callMethod {receiver : Value} (method : String) {args : List Value} (h : Kept receiver)
      (ha : ∀ a ∈ args, Kept a) : Taken host Kept Given (callMethod receiver method args) Given
  | applyBuiltin (b : Builtin) {args : List Value} (ha : ∀ a ∈ args, Kept a) :
      Taken host Kept Given (applyBuiltin host b args) Given

/-- Where nothing is asked of values, nothing is said of results. -/
theorem Taken.result_of_true {host : Host} {α : Type} {step : Eval α} {P : α → Prop}
    (h : Taken host (fun _ => True) (fun _ => True) step P) {m after : Machine} {a : α}
    (hr : step m = .ok a after) : P a := by
  cases h with
  | exhausted => cases hr
  | _ => trivial

/-! ## The rules -/

/-- A relation between evaluations in two monads, with what holds of their results, that goes
through steps and what is put together from them. Results that are on their way out of statements
satisfy `Flows`. -/
structure StepRules (host : Host) (M N : Type → Type) [MonadMachine M] [MonadMachine N] where
  Kept : Value → Prop
  Given : Value → Prop
  Flows : Value → Prop
  Rel : {α : Type} → M α → N α → (α → Prop) → Prop
  kept_of_plain : ∀ {v : Value}, v.isSignal = false → Kept v
  given_of_kept : ∀ {v : Value}, Kept v → Given v
  given_error : ∀ f : Fault, Given (.error f)
  given_settled : ∀ {v : Value}, Flows v → Given v.settled
  flows_of_given : ∀ {v : Value}, Given v → Flows v
  flows_breaking : Flows .breaking
  flows_returning : ∀ {v : Value}, Kept v → Flows (.returning v)
  mono : ∀ {α : Type} {x : M α} {y : N α} {P Q : α → Prop},
    Rel x y P → (∀ a, P a → Q a) → Rel x y Q
  pure : ∀ {α : Type} {a : α} {P : α → Prop}, P a → Rel (pure a) (pure a) P
  bind : ∀ {α β : Type} {x : M α} {y : N α} {f : α → M β} {g : α → N β} {P : α → Prop}
    {Q : β → Prop}, Rel x y P → (∀ a, P a → Rel (f a) (g a) Q) → Rel (x >>= f) (y >>= g) Q
  act : ∀ {α : Type} {step : Eval α} {P : α → Prop},
    Taken host Kept Given step P → Rel (act step) (act step) P
  evaluates : ∀ e : Expr, Rel (note (.evaluates e)) (note (.evaluates e)) fun _ => True
  executes : ∀ s : Statement, Rel (note (.executes s)) (note (.executes s)) fun _ => True
  nested : ∀ {α : Type} (level : Nat) {x : M α} {y : N α} {P : α → Prop},
    Rel x y P → Rel (nested level x) (nested level y) P

/-- Rules that also go through a new scope, a call and an import. -/
structure Rules (host : Host) (M N : Type → Type) [MonadMachine M] [MonadMachine N]
    extends StepRules host M N where
  scope : ∀ {α : Type} {x : M α} {y : N α} {P : α → Prop},
    Rel x y P → Rel (inNewScope x) (inNewScope y) P
  call : ∀ {α : Type} (closure : Closure) {args : List Value} {x : M α} {y : N α}
    {P : α → Prop}, closure.literal.accepts args.length = true → Rel x y P →
    Rel (inCall host.maxCallDepth closure args x) (inCall host.maxCallDepth closure args y) P
  load : ∀ {α : Type} (file : String) {f : Program → M α} {g : Program → N α} {P : α → Prop},
    (∀ p, Rel (f p) (g p) P) →
    Rel (inImport host file f) (inImport host file g) fun r => ∀ a, r = .ok a → P a

/-- Rules that go through brackets. -/
structure BracketRules (host : Host) (M N : Type → Type) [MonadMachine M] [MonadMachine N]
    extends StepRules host M N where
  calls : ∀ (closure : Closure) (args : List Value),
    Rel (MonadMachine.note (.calls closure args)) (MonadMachine.note (.calls closure args))
      fun _ => True
  frame : Rel (MonadMachine.act frame) (MonadMachine.act frame) fun _ => True
  newScope : ∀ outer : ScopeId,
    Rel (MonadMachine.act (newScope outer)) (MonadMachine.act (newScope outer)) fun _ => True
  overflow : ∀ {α : Type} {P : α → Prop} (limit : Nat),
    Rel (MonadMachine.act (fail (.stackOverflow limit)))
      (MonadMachine.act (fail (.stackOverflow limit))) P
  inBracket : ∀ {α : Type} (b : Bracket) {x : M α} {y : N α} {P : α → Prop},
    Rel x y P → Rel (inBracket b x) (inBracket b y) P
  inFile : ∀ {α : Type} (file : String) {x : M α} {y : N α} {P : α → Prop},
    Rel x y P → Rel (inFile file x) (inFile file y) P

variable {host : Host} {M N : Type → Type} [MonadMachine M] [MonadMachine N]

theorem StepRules.ite (R : StepRules host M N) {α : Type} {c : Prop} [Decidable c] {x x' : M α}
    {y y' : N α} {P : α → Prop} (h : c → R.Rel x y P) (h' : ¬c → R.Rel x' y' P) :
    R.Rel (if c then x else x') (if c then y else y') P := by
  split
  · exact h ‹_›
  · exact h' ‹_›

/-- A new scope, a call and an import are brackets around what they evaluate. -/
def BracketRules.rules (R : BracketRules host M N) : Rules host M N :=
  { R.toStepRules with
    scope := by
      intro α x y P h
      refine R.bind R.frame fun f _ => ?_
      refine R.bind (R.newScope f.scope) fun inner _ => ?_
      exact R.inBracket _ h
    call := by
      intro α closure args x y P _ h
      refine R.bind (R.calls closure args) fun _ _ => R.bind R.frame fun f _ => ?_
      refine R.ite (fun _ => R.overflow _) fun _ => ?_
      refine R.bind (R.newScope closure.scope) fun inner _ => ?_
      exact R.inBracket _ (R.inBracket _ h)
    load := by
      intro α file f g P h
      refine R.bind R.frame fun frame _ => ?_
      cases host.load frame.imports file with
      | error reason => exact R.pure (by simp)
      | ok p =>
        refine R.bind (R.inBracket _ (R.inFile file (h p))) fun a ha => R.pure ?_
        rintro b ⟨⟩
        exact ha }

namespace Rules

variable (R : Rules host M N) {eval : EvalExpr M} {eval' : EvalExpr N}

/-- The rules hold of the evaluation of expressions. -/
def Evaluates (eval : EvalExpr M) (eval' : EvalExpr N) : Prop :=
  ∀ e, R.Rel (eval e) (eval' e) R.Flows

theorem given_of_plain {v : Value} (h : v.isSignal = false) : R.Given v :=
  R.given_of_kept (R.kept_of_plain h)

theorem flows_of_plain {v : Value} (h : v.isSignal = false) : R.Flows v :=
  R.flows_of_given (R.given_of_plain h)

theorem given_of_settled {v : Value} (h : v.isSettled = true) : R.Given v := by
  cases he : v.isError with
  | false => exact R.given_of_plain (Value.isSignal_eq_false h he)
  | true =>
    cases v with
    | error f => exact R.given_error f
    | _ => cases he

theorem fault (f : Fault) : R.Rel (Eval.fault f) (Eval.fault f) R.Given :=
  R.pure (R.given_error f)

theorem fault_flows (f : Fault) : R.Rel (Eval.fault f) (Eval.fault f) R.Flows :=
  R.mono (R.fault f) fun _ => R.flows_of_given

/-- A step as it stands among other evaluations. -/
theorem lift {α : Type} {step : Eval α} {P : α → Prop} (h : Taken host R.Kept R.Given step P) :
    R.Rel (liftM step) (liftM step) P := R.act h

theorem lift_flows {step : Eval Value} (h : Taken host R.Kept R.Given step R.Given) :
    R.Rel (liftM step) (liftM step) R.Flows :=
  R.mono (R.lift h) fun _ => R.flows_of_given

theorem andThen {x : M Value} {y : N Value} {f : Value → M Value} {g : Value → N Value}
    (hx : R.Rel x y R.Flows) (h : ∀ v, v.isSignal = false → R.Rel (f v) (g v) R.Flows) :
    R.Rel (Eval.andThen x f) (Eval.andThen y g) R.Flows := by
  refine R.bind hx fun v hv => R.ite (fun _ => R.pure hv) fun hs => ?_
  exact h v (by simpa using hs)

/-! ## Several expressions -/

/-- What holds of a result that a signal may take the place of. -/
def Ends {α : Type} (P : α → Prop) : Except Value α → Prop
  | .ok a => P a
  | .error signal => R.Flows signal

theorem values (he : R.Evaluates eval eval') (es : List Expr) :
    R.Rel (Eval.values eval es) (Eval.values eval' es)
      (R.Ends fun vs => ∀ v ∈ vs, R.Kept v) := by
  induction es with
  | nil => exact R.pure (by simp [Ends])
  | cons e es ih =>
    refine R.bind (he e) fun v hv => R.ite (fun _ => R.pure hv) fun hs => ?_
    refine R.bind ih fun r hr => ?_
    cases r with
    | error signal => exact R.pure hr
    | ok vs =>
      have hk : R.Kept v := R.kept_of_plain (by simpa using hs)
      exact R.pure (List.forall_mem_cons.mpr ⟨hk, hr⟩)

theorem withValues (he : R.Evaluates eval eval') (es : List Expr) {f : List Value → M Value}
    {g : List Value → N Value}
    (h : ∀ vs, (∀ v ∈ vs, R.Kept v) → R.Rel (f vs) (g vs) R.Flows) :
    R.Rel (Eval.withValues eval es f) (Eval.withValues eval' es g) R.Flows := by
  refine R.bind (R.values he es) fun r hr => ?_
  cases r with
  | error signal => exact R.pure hr
  | ok vs => exact h vs hr

/-! ## Assignments -/

theorem operate (op : BinaryOp) (l r : Value) :
    R.Rel (Eval.operate op l r) (Eval.operate op l r) fun v => v.isSettled = true :=
  R.bind (R.lift .heap) fun heap _ => R.pure (Operation.binary_isSettled heap op l r)

theorem operate_flows (op : BinaryOp) (l r : Value) :
    R.Rel (Eval.operate op l r) (Eval.operate op l r) R.Flows :=
  R.mono (R.operate op l r) fun _ h => R.flows_of_given (R.given_of_settled h)

theorem combined (op : Option BinaryOp) (current : Value) {value : Value}
    (h : value.isSignal = false) :
    R.Rel (Eval.combined op current value) (Eval.combined op current value)
      fun v => v.isSettled = true := by
  cases op with
  | none => exact R.pure (Value.isSettled_of_plain h)
  | some op => exact R.operate op current value

theorem assignName (he : R.Evaluates eval eval') (name : String) (op : Option BinaryOp)
    (value : Expr) :
    R.Rel (Eval.assignName eval name op value) (Eval.assignName eval' name op value)
      R.Flows := by
  refine R.bind (R.lift (.lookup? name)) fun o _ => ?_
  cases o with
  | none => exact R.fault_flows _
  | some current =>
    refine R.andThen (he value) fun v hv => ?_
    refine R.bind (R.combined op current hv) fun result hr => ?_
    have hg : R.Flows result := R.flows_of_given (R.given_of_settled hr)
    refine R.ite (fun _ => R.pure hg) fun hn => ?_
    have hk : R.Kept result := R.kept_of_plain (Value.isSignal_eq_false hr (by simpa using hn))
    exact R.bind (R.lift (.assign name hk)) fun _ _ => R.pure hg

theorem assignElement (he : R.Evaluates eval eval') (container key : Expr)
    (op : Option BinaryOp) (value : Expr) :
    R.Rel (Eval.assignElement eval container key op value)
      (Eval.assignElement eval' container key op value) R.Flows := by
  refine R.andThen (he container) fun c _ => R.andThen (he key) fun k _ =>
    R.andThen (he value) fun v hv => ?_
  cases op with
  | none => exact R.lift_flows (.writeElement c k (R.kept_of_plain hv))
  | some op =>
    refine R.bind (R.lift (.readElement c k)) fun current hc => ?_
    refine R.ite (fun _ => R.pure (R.flows_of_given hc)) fun _ => ?_
    refine R.bind (R.operate op current v) fun result hr => ?_
    refine R.ite (fun _ => R.pure (R.flows_of_given (R.given_of_settled hr))) fun hn => ?_
    have hk : R.Kept result := R.kept_of_plain (Value.isSignal_eq_false hr (by simpa using hn))
    exact R.lift_flows (.writeElement c k hk)

theorem assignment (he : R.Evaluates eval eval') (target : Expr) (op : Option BinaryOp)
    (value : Expr) :
    R.Rel (Eval.assignment eval target op value) (Eval.assignment eval' target op value)
      R.Flows := by
  cases target with
  | identifier name _ => exact R.assignName he name op value
  | index container key _ => exact R.assignElement he container key op value
  | _ => exact R.fault_flows _

theorem deleteElement (he : R.Evaluates eval eval') (target : Expr) :
    R.Rel (Eval.deleteElement eval target) (Eval.deleteElement eval' target) R.Flows := by
  cases target with
  | index container key _ =>
    cases container with
    | identifier _ _ =>
      exact R.andThen (he _) fun c _ => R.andThen (he key) fun k _ =>
        R.lift_flows (.eraseElement c k)
    | _ => exact R.fault_flows _
  | _ => exact R.fault_flows _

/-! ## Statements -/

theorem branchValues (he : R.Evaluates eval eval') (branches : List (String × Expr)) :
    R.Rel (Eval.branchValues eval branches) (Eval.branchValues eval' branches)
      (R.Ends fun bs => ∀ b ∈ bs, R.Kept b.2) := by
  induction branches with
  | nil => exact R.pure (by simp [Ends])
  | cons branch rest ih =>
    refine R.bind (he branch.2) fun v hv => R.ite (fun _ => R.pure hv) fun hs => ?_
    refine R.bind ih fun r hr => ?_
    cases r with
    | error signal => exact R.pure hr
    | ok bs =>
      have hk : R.Kept v := R.kept_of_plain (by simpa using hs)
      exact R.pure (List.forall_mem_cons.mpr ⟨hk, hr⟩)

theorem declareEnum (he : R.Evaluates eval eval') (name : String)
    (branches : List (String × Expr)) :
    R.Rel (Eval.declareEnum eval name branches) (Eval.declareEnum eval' name branches)
      R.Flows := by
  refine R.bind (R.branchValues he branches) fun r hr => ?_
  cases r with
  | error signal => exact R.pure hr
  | ok bs =>
    exact R.bind (R.lift (.bindEnum name hr)) fun _ _ => R.pure (R.flows_of_plain rfl)

theorem statement (he : R.Evaluates eval eval') (s : Statement) :
    R.Rel (Eval.statement eval s) (Eval.statement eval' s) R.Flows := by
  refine R.bind (R.executes s) fun _ _ => ?_
  cases s with
  | var name value _ =>
    refine R.andThen (he value) fun v hv => ?_
    exact R.bind (R.lift (.define name (R.kept_of_plain hv))) fun _ _ =>
      R.pure (R.flows_of_plain rfl)
  | assignment target op value _ => exact R.assignment he target op value
  | returning value _ =>
    cases value with
    | none => exact R.pure (R.flows_returning (R.kept_of_plain rfl))
    | some e =>
      exact R.andThen (he e) fun v hv => R.pure (R.flows_returning (R.kept_of_plain hv))
  | breaking _ => exact R.pure R.flows_breaking
  | delete target _ => exact R.deleteElement he target
  | enum name branches _ => exact R.declareEnum he name branches
  | expression e _ => exact he e

theorem statements (he : R.Evaluates eval eval') {last : Value} (h : R.Flows last)
    (ss : List Statement) :
    R.Rel (Eval.statements eval last ss) (Eval.statements eval' last ss) R.Flows := by
  induction ss generalizing last with
  | nil => exact R.pure h
  | cons s ss ih =>
    exact R.bind (R.statement he s) fun v hv => R.ite (fun _ => R.pure hv) fun _ => ih hv

theorem block (he : R.Evaluates eval eval') (b : Block) :
    R.Rel (Eval.block eval b) (Eval.block eval' b) R.Flows :=
  R.scope (R.statements he (R.flows_of_plain rfl) b.statements)

/-! ## Loops -/

/-- What holds of a signal that ends an evaluation early. -/
def Stops (o : Option Value) : Prop := ∀ v, o = some v → R.Flows v

theorem stops_none : R.Stops none := by
  intro v h
  cases h

theorem stops_some {v : Value} (h : R.Flows v) : R.Stops (some v) := by
  intro w hw
  cases hw
  exact h

theorem endsBefore (he : R.Evaluates eval eval') (condition : Option Expr) {result : Value}
    (h : R.Flows result) :
    R.Rel (Eval.endsBefore eval condition result) (Eval.endsBefore eval' condition result)
      R.Stops := by
  cases condition with
  | none => exact R.pure R.stops_none
  | some e =>
    refine R.bind (he e) fun v hv => R.ite (fun _ => R.pure (R.stops_some hv)) fun _ => ?_
    exact R.ite (fun _ => R.pure R.stops_none) fun _ => R.pure (R.stops_some h)

theorem signalOf {x : M Value} {y : N Value} (h : R.Rel x y R.Flows) :
    R.Rel (Eval.signalOf x) (Eval.signalOf y) R.Stops :=
  R.bind h fun _ hv => R.ite (fun _ => R.pure (R.stops_some hv)) fun _ => R.pure R.stops_none

theorem update (he : R.Evaluates eval eval') (clause : Option Expr) :
    R.Rel (Eval.update eval clause) (Eval.update eval' clause) R.Stops := by
  cases clause with
  | none => exact R.pure R.stops_none
  | some e => exact R.signalOf (he e)

theorem start (he : R.Evaluates eval eval') (initializer : Option Statement) :
    R.Rel (Eval.start eval initializer) (Eval.start eval' initializer) R.Stops := by
  cases initializer with
  | none => exact R.pure R.stops_none
  | some s => exact R.signalOf (R.statement he s)

theorem passes (he : R.Evaluates eval eval') (condition clause : Option Expr) (body : Block)
    (fuel : Nat) {result : Value} (h : R.Flows result) :
    R.Rel (Eval.passes eval condition clause body fuel result)
      (Eval.passes eval' condition clause body fuel result) R.Flows := by
  induction fuel generalizing result with
  | zero => exact R.lift (.exhausted _)
  | succ fuel ih =>
    refine R.bind (R.endsBefore he condition h) fun o ho => ?_
    cases o with
    | some v => exact R.pure (ho v rfl)
    | none =>
      refine R.bind (R.block he body) fun v hv => ?_
      cases v with
      | breaking => exact R.pure (R.flows_of_plain rfl)
      | _ =>
        refine R.ite (fun _ => R.pure hv) fun _ => R.bind (R.update he clause) fun o ho => ?_
        cases o with
        | some signal => exact R.pure (ho signal rfl)
        | none => exact ih hv

theorem loop (he : R.Evaluates eval eval') (fuel : Nat) (initializer : Option Statement)
    (condition clause : Option Expr) (body : Block) :
    R.Rel (Eval.loop fuel eval initializer condition clause body)
      (Eval.loop fuel eval' initializer condition clause body) R.Flows := by
  refine R.scope (R.bind (R.start he initializer) fun o ho => ?_)
  cases o with
  | some signal => exact R.pure (ho signal rfl)
  | none => exact R.passes he condition clause body fuel (R.flows_of_plain rfl)

/-! ## Calls -/

theorem bindParameters (he : R.Evaluates eval eval') (parameters : List Parameter)
    {args : List Value} (ha : ∀ a ∈ args, R.Kept a) :
    R.Rel (Eval.bindParameters eval parameters args) (Eval.bindParameters eval' parameters args)
      R.Stops := by
  induction parameters generalizing args with
  | nil => exact R.pure R.stops_none
  | cons parameter rest ih =>
    cases args with
    | cons arg args =>
      refine R.bind (R.lift (.define parameter.name (ha arg (by simp)))) fun _ _ => ?_
      exact ih fun a h => ha a (by simp [h])
    | nil =>
      cases parameter with
      | required name =>
        exact R.bind (R.lift (.define name (R.kept_of_plain rfl))) fun _ _ => ih ha
      | defaulted name default =>
        refine R.bind (he default) fun v hv => ?_
        refine R.ite (fun _ => R.pure (R.stops_some hv)) fun hs => ?_
        have hk : R.Kept v := R.kept_of_plain (by simpa using hs)
        exact R.bind (R.lift (.define name hk)) fun _ _ => ih ha

theorem callBody (he : R.Evaluates eval eval') (literal : FunctionLiteral) {args : List Value}
    (ha : ∀ a ∈ args, R.Kept a) :
    R.Rel (Eval.callBody eval literal args) (Eval.callBody eval' literal args) R.Flows := by
  refine R.bind (R.bindParameters he literal.parameters ha) fun o ho => ?_
  cases o with
  | some signal => exact R.pure (ho signal rfl)
  | none => exact R.statements he (R.flows_of_plain rfl) literal.body.statements

theorem callClosure (he : R.Evaluates eval eval') (closure : Closure) {args : List Value}
    (ha : ∀ a ∈ args, R.Kept a) :
    R.Rel (Eval.callClosure host eval closure args) (Eval.callClosure host eval' closure args)
      R.Given := by
  refine R.ite (fun haccepts => ?_) fun _ => R.fault _
  exact R.bind (R.call closure haccepts (R.callBody he closure.literal ha)) fun _ hv =>
    R.pure (R.given_settled hv)

theorem apply (he : R.Evaluates eval eval') (callee : Value) {args : List Value}
    (ha : ∀ a ∈ args, R.Kept a) :
    R.Rel (Eval.apply host eval callee args) (Eval.apply host eval' callee args) R.Given := by
  cases callee with
  | function id =>
    refine R.bind (R.lift (.closure? id)) fun o _ => ?_
    cases o with
    | none => exact R.fault _
    | some closure => exact R.callClosure he closure ha
  | builtin b => exact R.lift (.applyBuiltin b ha)
  | _ => exact R.fault _

/-! ## Imports -/

theorem importFile (he : R.Evaluates eval eval') (file : String) :
    R.Rel (Eval.importFile host eval file) (Eval.importFile host eval' file) R.Given := by
  refine R.bind (R.load file (R.statements he (R.flows_of_plain rfl))) fun r hr => ?_
  cases r with
  | error reason => exact R.fault _
  | ok v =>
    have hv : R.Flows v := hr v rfl
    refine R.pure ?_
    cases v with
    | error f => exact R.given_error _
    | returning w => exact R.given_settled hv
    | _ => exact R.given_of_plain rfl

theorem importValue (he : R.Evaluates eval eval') (v : Value) :
    R.Rel (Eval.importValue host eval v) (Eval.importValue host eval' v) R.Given := by
  cases v with
  | string file => exact R.importFile he file
  | _ => exact R.fault _

/-! ## Expressions -/

theorem hashPairs (he : R.Evaluates eval eval') (pairs : List (Expr × Expr))
    {object : HashObject} (h : object.Holds R.Kept) (hb : object.Built) :
    R.Rel (Eval.hashPairs eval object pairs) (Eval.hashPairs eval' object pairs)
      (R.Ends fun made => made.Holds R.Kept ∧ made.Built) := by
  induction pairs generalizing object with
  | nil => exact R.pure ⟨h, hb⟩
  | cons pair rest ih =>
    refine R.bind (he pair.1) fun k hk => R.ite (fun _ => R.pure hk) fun hsk => ?_
    refine R.ite (fun _ => R.pure (R.flows_of_given (R.given_error _))) fun _ => ?_
    refine R.bind (he pair.2) fun v hv => R.ite (fun _ => R.pure hv) fun hsv => ?_
    have hkey : R.Kept k := R.kept_of_plain (by simpa using hsk)
    have hvalue : R.Kept v := R.kept_of_plain (by simpa using hsv)
    exact ih (h.insert hkey hvalue) (hb.insert k v)

theorem exprStep (he : R.Evaluates eval eval') (fuel : Nat) (e : Expr) :
    R.Rel (Eval.exprStep host fuel eval e) (Eval.exprStep host fuel eval' e) R.Flows := by
  cases e with
  | integer _ _ | float _ _ | string _ _ | boolean _ _ | null _ =>
    exact R.pure (R.flows_of_plain rfl)
  | identifier name _ => exact R.lift_flows (.lookup name)
  | unary op operand _ =>
    exact R.andThen (he operand) fun v _ =>
      R.pure (R.flows_of_given (R.given_of_settled (Operation.unary_isSettled op v)))
  | binary op left right _ =>
    exact R.andThen (he left) fun l _ => R.andThen (he right) fun r _ => R.operate_flows op l r
  | step op name _ => exact R.lift_flows (.step op name)
  | assign target op value _ => exact R.assignment he target op value
  | call function arguments _ =>
    refine R.andThen (he function) fun callee _ => R.withValues he arguments fun args ha => ?_
    exact R.mono (R.apply he callee ha) fun _ => R.flows_of_given
  | index container key _ =>
    exact R.andThen (he container) fun c _ => R.andThen (he key) fun k _ =>
      R.lift_flows (.readElement c k)
  | array elements _ => exact R.withValues he elements fun _ h => R.lift_flows (.newArray h)
  | hash pairs _ =>
    refine R.bind (R.hashPairs he pairs HashObject.holds_empty HashObject.built_empty)
      fun r hr => ?_
    cases r with
    | error signal => exact R.pure hr
    | ok object => exact R.lift_flows (.newHash hr.1 hr.2)
  | conditional condition consequence alternative _ =>
    refine R.andThen (he condition) fun v _ => R.ite (fun _ => R.block he consequence) fun _ => ?_
    cases alternative with
    | none => exact R.pure (R.flows_of_plain rfl)
    | some other => exact R.block he other
  | ternary condition consequence alternative _ =>
    exact R.andThen (he condition) fun v _ =>
      R.ite (fun _ => he consequence) fun _ => he alternative
  | elvis left right _ =>
    exact R.andThen (he left) fun v hv =>
      R.ite (fun _ => R.pure (R.flows_of_plain hv)) fun _ => he right
  | loop initializer condition update body _ =>
    exact R.loop he fuel initializer condition update body
  | function literal _ => exact R.lift_flows (.makeFunction literal)
  | methodCall receiver method arguments _ =>
    exact R.andThen (he receiver) fun r hr => R.withValues he arguments fun args ha =>
      R.lift_flows (.callMethod method (R.kept_of_plain hr) ha)
  | scopeAccess name branch _ => exact R.lift_flows (.scopeAccess name branch)
  | importFile path _ =>
    exact R.andThen (he path) fun v _ => R.mono (R.importValue he v) fun _ => R.flows_of_given

/-- The rules hold of the evaluation of every expression. The induction is on how deep evaluation
may nest. -/
theorem expr (fuel : Nat) : R.Evaluates (Eval.expr host fuel) (Eval.expr host fuel) := by
  induction fuel with
  | zero => exact fun _ => R.lift (.exhausted _)
  | succ fuel ih =>
    exact fun e => R.nested fuel (R.bind (R.evaluates e) fun _ _ => R.exprStep ih fuel e)

theorem program (fuel : Nat) (p : Program) :
    R.Rel (Eval.program host fuel p) (Eval.program host fuel p) R.Given :=
  R.bind (R.statements (R.expr fuel) (R.flows_of_plain rfl) p) fun _ hv =>
    R.pure (R.given_settled hv)

end Rules

end ScriptLang
