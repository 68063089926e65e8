-- Values or exceptions: evaluation that hands signals on as values agrees with evaluation that
-- raises them.
import ScriptLang.Proofs.Raising
import ScriptLang.Proofs.Settled

namespace ScriptLang

namespace Raising

open Eval (andThen)

variable {α β : Type}

/-! ## Steps and signals -/

theorem act_bind (x : Eval α) (f : α → Eval β) :
    act (x >>= f) = act x >>= fun a => act (f a) := by
  funext m
  rw [bind_run]
  unfold act
  rw [bind_run]
  cases x m <;> rfl

theorem perform_run (x : Eval Value) (m : Machine) :
    perform x m = match x m with
      | .ok v after => raise v after
      | .error reason after => .error (.stop reason) after := by
  unfold perform
  rw [bind_run]
  unfold act
  cases x m <;> rfl

theorem tryCatch_run (x : Raising α) (handle : Raised → Raising α) (m : Machine) :
    tryCatch x handle m = match x m with
      | .ok a after => .ok a after
      | .error raised after => handle raised after := by
  change EStateM.tryCatch x handle m = _
  unfold EStateM.tryCatch
  cases x m <;> rfl

theorem perform_bind (x : Eval α) (f : α → Eval Value) :
    perform (x >>= f) = act x >>= fun a => perform (f a) := by
  unfold perform
  rw [act_bind, bind_assoc]

theorem raise_of_plain {v : Value} (h : v.isSignal = false) : raise v = pure v := by
  cases v <;> first | rfl | cases h

/-- A signal that is raised leaves what comes after it. -/
theorem raise_bind_of_signal {v : Value} (h : v.isSignal = true) (f : Value → Raising Value) :
    raise v >>= f = raise v := by
  cases v <;> first | rfl | cases h

/-- To go on unless there is a signal is to go on. -/
theorem perform_andThen {x : Eval Value} {f : Value → Eval Value} {g : Value → Raising Value}
    (h : ∀ v, v.isSignal = false → perform (f v) = g v) :
    perform (andThen x f) = perform x >>= g := by
  unfold andThen
  rw [perform_bind]
  unfold perform
  rw [bind_assoc]
  congr 1
  funext v
  cases hs : v.isSignal with
  | true => rw [raise_bind_of_signal hs, if_pos rfl]; rfl
  | false =>
    rw [raise_of_plain hs, pure_bind, if_neg Bool.false_ne_true]
    exact h v hs

/-- A step whose error ends what comes after it. -/
theorem perform_unlessError {x : Eval Value} {f : Value → Eval Value} {g : Value → Raising Value}
    {P : Value → Prop} (hx : ∀ m v after, x m = .ok v after → P v)
    (h : ∀ v, P v → v.isError = false → perform (f v) = g v) :
    perform (do let v ← x; if v.isError then return v else f v) = attempt x >>= g := by
  funext m
  rw [perform_bind, bind_run, bind_run]
  unfold attempt
  rw [bind_run]
  unfold act
  cases hr : x m with
  | error stop after => rfl
  | ok v after =>
    have hv := h v (hx m v after hr)
    cases v with
    | error fault => rfl
    | _ => exact congrFun (hv rfl) after

/-! ## Several expressions -/

/-- Evaluation that raises signals in place of evaluation that hands them on. -/
def Agrees (eval : EvalExpr Eval) (ref : EvalExpr Raising) : Prop :=
  ∀ e, perform (eval e) = ref e

/-- Goes on with what a step makes, unless there is a signal in its place. -/
def orSignal (x : Eval (Except Value α)) (f : α → Eval Value) : Eval Value := do
  match ← x with
  | .ok a => f a
  | .error signal => return signal

/-- The value of an expression comes first. -/
theorem orSignal_first (x : Eval Value) (rest : Value → Eval (Except Value α))
    (f : α → Eval Value) :
    orSignal (do let v ← x; if v.isSignal then return .error v else rest v) f =
      andThen x fun v => orSignal (rest v) f := by
  unfold orSignal andThen
  rw [bind_assoc]
  congr 1
  funext v
  cases v.isSignal <;> rfl

/-- More is made of what the rest makes. -/
theorem orSignal_map {x : Eval (Except Value α)} {next : Except Value α → Eval (Except Value β)}
    (g : α → β) (f : β → Eval Value) (hok : ∀ a, next (.ok a) = pure (.ok (g a)))
    (herror : ∀ signal, next (.error signal) = pure (.error signal)) :
    orSignal (x >>= next) f = orSignal x fun a => f (g a) := by
  unfold orSignal
  rw [bind_assoc]
  congr 1
  funext r
  cases r with
  | ok a => rw [hok]; rfl
  | error signal => rw [herror]; rfl

variable {eval : EvalExpr Eval} {ref : EvalExpr Raising}

theorem withValues_eq (es : List Expr) (f : List Value → Eval Value) :
    Eval.withValues eval es f = orSignal (Eval.values eval es) f := by
  unfold Eval.withValues orSignal
  congr 1
  funext r
  cases r <;> rfl

theorem perform_withValues (h : Agrees eval ref) (es : List Expr) {f : List Value → Eval Value}
    {g : List Value → Raising Value} (hf : ∀ vs, perform (f vs) = g vs) :
    perform (Eval.withValues eval es f) = es.mapM ref >>= g := by
  rw [withValues_eq]
  induction es generalizing f g with
  | nil => exact hf []
  | cons e es ih =>
    rw [Eval.values, orSignal_first, List.mapM_cons, bind_assoc, ← h e]
    refine perform_andThen fun v _ => ?_
    rw [orSignal_map (v :: ·), ih fun vs => hf (v :: vs), bind_assoc]
    · rfl
    · exact fun _ => rfl
    · exact fun _ => rfl

theorem perform_branchValues (h : Agrees eval ref) (branches : List (String × Expr))
    {f : List (String × Value) → Eval Value} {g : List (String × Value) → Raising Value}
    (hf : ∀ bs, perform (f bs) = g bs) :
    perform (orSignal (Eval.branchValues eval branches) f) =
      branches.mapM (branchValue ref) >>= g := by
  induction branches generalizing f g with
  | nil => exact hf []
  | cons branch rest ih =>
    have hbranch : branchValue ref branch = perform (eval branch.2) >>= fun v =>
      pure (branch.1, v) := by rw [h]; rfl
    rw [Eval.branchValues, orSignal_first, List.mapM_cons, hbranch, bind_assoc, bind_assoc]
    refine perform_andThen fun v _ => ?_
    rw [orSignal_map ((branch.1, v) :: ·), ih fun bs => hf ((branch.1, v) :: bs), pure_bind,
      bind_assoc]
    · rfl
    · exact fun _ => rfl
    · exact fun _ => rfl

theorem perform_hashPairs (h : Agrees eval ref) (pairs : List (Expr × Expr)) (object : HashObject)
    {f : HashObject → Eval Value} {g : HashObject → Raising Value}
    (hf : ∀ made, perform (f made) = g made) :
    perform (orSignal (Eval.hashPairs eval object pairs) f) =
      pairs.foldlM (hashPair ref) object >>= g := by
  induction pairs generalizing object with
  | nil => exact hf object
  | cons pair rest ih =>
    rw [Eval.hashPairs, orSignal_first, List.foldlM_cons, bind_assoc]
    unfold hashPair
    rw [bind_assoc, ← h pair.1]
    refine perform_andThen fun k _ => ?_
    cases (HashKey.of? k).isNone with
    | true => rfl
    | false =>
      simp only [Bool.false_eq_true, if_false, ← h pair.2]
      rw [orSignal_first, bind_assoc]
      refine perform_andThen fun v _ => ?_
      exact ih (object.insert k v)

/-! ## Statements -/

theorem combined_isSettled {op : Option BinaryOp} {current value : Value}
    (h : value.isSignal = false) (m : Machine) (v : Value) (after : Machine)
    (hr : (Eval.combined op current value : Eval Value) m = .ok v after) : v.isSettled = true := by
  cases op with
  | none =>
    cases hr
    exact Value.isSettled_of_plain h
  | some op =>
    cases hr
    exact Operation.binary_isSettled _ op current value

theorem perform_assignName (h : Agrees eval ref) (name : String) (op : Option BinaryOp)
    (value : Expr) :
    perform (Eval.assignName eval name op value) = assignName ref name op value := by
  unfold Eval.assignName assignName
  rw [perform_bind]
  refine bind_congr fun o => ?_
  cases o with
  | none => rfl
  | some current =>
    rw [← h value]
    refine perform_andThen fun v hv => ?_
    refine perform_unlessError (combined_isSettled hv) fun result hresult herror => ?_
    rw [perform_bind]
    refine bind_congr fun _ => ?_
    exact raise_of_plain (Value.isSignal_eq_false hresult herror)

theorem perform_assignElement (h : Agrees eval ref) (container key : Expr) (op : Option BinaryOp)
    (value : Expr) :
    perform (Eval.assignElement eval container key op value) =
      assignElement ref container key op value := by
  unfold Eval.assignElement assignElement
  rw [← h container, ← h key, ← h value]
  refine perform_andThen fun c _ => perform_andThen fun k _ => perform_andThen fun v _ => ?_
  cases op with
  | none => rfl
  | some op =>
    refine perform_unlessError (P := fun _ => True) (fun _ _ _ _ => trivial) fun current _ _ => ?_
    exact perform_unlessError (P := fun _ => True) (fun _ _ _ _ => trivial) fun result _ _ => rfl

theorem perform_assignment (h : Agrees eval ref) (target : Expr) (op : Option BinaryOp)
    (value : Expr) :
    perform (Eval.assignment eval target op value) = assignment ref target op value := by
  cases target with
  | identifier name _ => exact perform_assignName h name op value
  | index container key _ => exact perform_assignElement h container key op value
  | _ => rfl

theorem perform_deleteElement (h : Agrees eval ref) (target : Expr) :
    perform (Eval.deleteElement eval target) = deleteElement ref target := by
  cases target with
  | index container key _ =>
    cases container with
    | identifier name position =>
      simp only [Eval.deleteElement, deleteElement]
      rw [← h, ← h]
      exact perform_andThen fun c _ => perform_andThen fun k _ => rfl
    | _ => rfl
  | _ => rfl

theorem perform_statement (h : Agrees eval ref) (s : Statement) :
    perform (Eval.statement eval s) = statement ref s := by
  change perform (Eval.statementStep eval s) = _
  cases s with
  | var name value _ =>
    simp only [Eval.statementStep, statement]
    rw [← h value]
    refine perform_andThen fun v _ => ?_
    rw [perform_bind]
    rfl
  | assignment target op value _ => exact perform_assignment h target op value
  | returning value _ =>
    cases value with
    | none => rfl
    | some e =>
      simp only [Eval.statementStep, statement]
      rw [← h e]
      exact perform_andThen fun v _ => rfl
  | breaking _ => rfl
  | delete target _ => exact perform_deleteElement h target
  | enum name branches _ =>
    have horder : Eval.declareEnum eval name branches =
        orSignal (Eval.branchValues eval branches) fun bs => do
          Eval.bindEnum name bs
          return .null := by
      unfold Eval.declareEnum orSignal
      refine bind_congr fun r => ?_
      cases r <;> rfl
    simp only [Eval.statementStep, statement, horder]
    refine perform_branchValues h branches fun bs => ?_
    rw [perform_bind]
    rfl
  | expression e _ => exact h e

theorem perform_statements_from (h : Agrees eval ref) (ss : List Statement) {last : Value}
    (hlast : last.isSignal = false) :
    perform (Eval.statements eval last ss) = ss.foldlM (fun _ s => statement ref s) last := by
  induction ss generalizing last with
  | nil => exact raise_of_plain hlast
  | cons s ss ih =>
    rw [List.foldlM_cons, ← perform_statement h s]
    exact perform_andThen fun v hv => ih hv

theorem perform_statements (h : Agrees eval ref) (ss : List Statement) :
    perform (Eval.statements eval .null ss) = statements ref ss :=
  perform_statements_from h ss rfl

/-! ## Brackets -/

theorem perform_inBracket (b : Eval.Bracket) (x : Eval Value) :
    perform (inBracket b x) = inBracket b (perform x) := by
  funext m
  change perform (Eval.within b x) m = within b (perform x) m
  unfold within
  rw [perform_run, perform_run]
  unfold Eval.within
  cases x (b.enter m) with
  | error stop after => rfl
  | ok v after => cases v <;> rfl

theorem perform_inNewScope (x : Eval Value) :
    perform (Eval.inNewScope x) = Eval.inNewScope (perform x) := by
  unfold Eval.inNewScope
  rw [perform_bind]
  refine bind_congr fun f => ?_
  rw [perform_bind]
  refine bind_congr fun inner => ?_
  exact perform_inBracket _ x

theorem perform_inCall (limit : Nat) (closure : Closure) (args : List Value) (x : Eval Value) :
    perform (Eval.inCall limit closure args x) = Eval.inCall limit closure args (perform x) := by
  unfold Eval.inCall
  rw [perform_bind]
  refine bind_congr fun _ => ?_
  rw [perform_bind]
  refine bind_congr fun f => ?_
  split
  · rfl
  · rw [perform_bind]
    refine bind_congr fun inner => ?_
    rw [perform_inBracket, perform_inBracket]

theorem perform_block (h : Agrees eval ref) (b : Block) :
    perform (Eval.block eval b) = block ref b := by
  unfold Eval.block block
  rw [perform_inNewScope, perform_statements h]

/-! ## Loops -/

/-- Goes on unless a clause ends in a signal. -/
def unlessSignal (x : Eval (Option Value)) (next : Eval Value) : Eval Value := do
  match ← x with
  | some signal => return signal
  | none => next

theorem unlessSignal_bind (x : Eval α) (f : α → Eval (Option Value)) (next : Eval Value) :
    unlessSignal (x >>= f) next = x >>= fun a => unlessSignal (f a) next := by
  unfold unlessSignal
  rw [bind_assoc]

theorem perform_signalOf (x next : Eval Value) :
    perform (unlessSignal (Eval.signalOf x) next) = perform x >>= fun _ => perform next := by
  have horder : unlessSignal (Eval.signalOf x) next = andThen x fun _ => next := by
    unfold unlessSignal Eval.signalOf andThen
    rw [bind_assoc]
    refine bind_congr fun v => ?_
    cases v.isSignal <;> rfl
  rw [horder]
  exact perform_andThen fun _ _ => rfl

theorem perform_start (h : Agrees eval ref) (initializer : Option Statement) (next : Eval Value) :
    perform (unlessSignal (Eval.start eval initializer) next) =
      optionally (statement ref) initializer >>= fun _ => perform next := by
  cases initializer with
  | none => rfl
  | some s =>
    simp only [optionally, bind_assoc, pure_bind]
    rw [← perform_statement h s]
    exact perform_signalOf _ next

theorem perform_update (h : Agrees eval ref) (clause : Option Expr) (next : Eval Value) :
    perform (unlessSignal (Eval.update eval clause) next) =
      optionally ref clause >>= fun _ => perform next := by
  cases clause with
  | none => rfl
  | some e =>
    simp only [optionally, bind_assoc, pure_bind]
    rw [← h e]
    exact perform_signalOf _ next

/-- Ends a loop, or goes on with a pass of it. -/
theorem perform_endsBefore (h : Agrees eval ref) (condition : Option Expr) {result : Value}
    (hresult : result.isSignal = false) (next : Eval Value) :
    perform (unlessSignal (Eval.endsBefore eval condition result) next) =
      goesOn ref condition >>= fun b => if b then perform next else pure result := by
  cases condition with
  | none => rfl
  | some e =>
    have horder : unlessSignal (Eval.endsBefore eval (some e) result) next =
        andThen (eval e) fun v => if v.isTruthy then next else pure result := by
      unfold unlessSignal Eval.endsBefore andThen
      rw [bind_assoc]
      refine bind_congr fun v => ?_
      dsimp only
      cases v.isSignal with
      | true => rfl
      | false => cases v.isTruthy <;> rfl
    rw [horder, goesOn, bind_assoc, ← h e]
    refine perform_andThen fun v _ => ?_
    rw [pure_bind]
    split
    · rfl
    · exact raise_of_plain hresult

/-- The body of a loop, and what comes after it. -/
theorem perform_body {x : Eval Value} {f : Value → Eval Value} {g : Value → Raising Value}
    (h : ∀ v, v.isSignal = false → perform (f v) = g v) :
    perform (do
      let value ← x
      match value with
      | .breaking => return .null
      | _ => if value.isSignal then return value else f value) =
    (do
      match ← untilBreak (perform x) with
      | none => return .null
      | some value => g value) := by
  funext m
  rw [perform_bind, bind_run, bind_run]
  unfold untilBreak act
  rw [tryCatch_run, map_eq_pure_bind, bind_run, perform_run]
  cases x m with
  | error reason after => rfl
  | ok v after =>
    have hv := h v
    -- Only a break ends the loop here. The other signals go on to whoever handles them.
    cases v with
    | error fault => rfl
    | returning w => rfl
    | breaking => rfl
    | _ => exact congrFun (hv rfl) after

theorem perform_passes (h : Agrees eval ref) (condition clause : Option Expr) (body : Block)
    (fuel : Nat) {result : Value} (hresult : result.isSignal = false) :
    perform (Eval.passes eval condition clause body fuel result) =
      passes ref condition clause body fuel result := by
  induction fuel generalizing result with
  | zero => rfl
  | succ fuel ih =>
    have horder : Eval.passes eval condition clause body (fuel + 1) result =
        unlessSignal (Eval.endsBefore eval condition result) (do
          let value ← Eval.block eval body
          match value with
          | .breaking => return .null
          | _ =>
            if value.isSignal then return value
            else
              unlessSignal (Eval.update eval clause)
                (Eval.passes eval condition clause body fuel value)) := by
      rw [Eval.passes]
      unfold unlessSignal
      refine bind_congr fun o => ?_
      cases o with
      | some v => rfl
      | none =>
        refine bind_congr fun v => ?_
        cases v <;> rfl
    rw [horder, perform_endsBefore h condition hresult, passes]
    refine bind_congr fun b => ?_
    cases b with
    | false => rfl
    | true =>
      rw [if_pos rfl, if_pos rfl, ← perform_block h]
      refine perform_body fun v hv => ?_
      rw [perform_update h, ih hv]

theorem perform_loop (h : Agrees eval ref) (fuel : Nat) (initializer : Option Statement)
    (condition clause : Option Expr) (body : Block) :
    perform (Eval.loop fuel eval initializer condition clause body) =
      loop fuel ref initializer condition clause body := by
  unfold Eval.loop loop
  rw [perform_inNewScope]
  congr 1
  rw [← perform_passes h condition clause body fuel rfl]
  exact perform_start h initializer _

/-! ## Calls -/

theorem perform_bindParameters (h : Agrees eval ref) (parameters : List Parameter)
    (args : List Value) (next : Eval Value) :
    perform (unlessSignal (Eval.bindParameters eval parameters args) next) =
      bindParameters ref parameters args >>= fun _ => perform next := by
  induction parameters generalizing args with
  | nil => rfl
  | cons parameter rest ih =>
    cases args with
    | cons arg args =>
      rw [Eval.bindParameters, unlessSignal_bind, perform_bind, bindParameters, bind_assoc]
      exact bind_congr fun _ => ih args
    | nil =>
      cases parameter with
      | required name =>
        rw [Eval.bindParameters, unlessSignal_bind, perform_bind, bindParameters, bind_assoc]
        exact bind_congr fun _ => ih []
      | defaulted name default =>
        have horder :
            unlessSignal (Eval.bindParameters eval (.defaulted name default :: rest) []) next =
              andThen (eval default) fun v => Eval.define name v >>= fun _ =>
                unlessSignal (Eval.bindParameters eval rest []) next := by
          rw [Eval.bindParameters, unlessSignal_bind]
          refine bind_congr fun v => ?_
          cases v.isSignal with
          | true => rfl
          | false => exact unlessSignal_bind _ _ _
        rw [horder, bindParameters, bind_assoc, ← h default]
        refine perform_andThen fun v _ => ?_
        rw [perform_bind, bind_assoc]
        exact bind_congr fun _ => ih []

/-- What is left of a signal outside a call. -/
theorem perform_settled (x : Eval Value) :
    perform (do return (← x).settled) = handleCall (perform x) := by
  funext m
  unfold handleCall
  rw [perform_bind, bind_run, tryCatch_run, perform_run]
  unfold act
  cases x m with
  | error reason after => rfl
  | ok v after => cases v <;> rfl

theorem perform_callClosure (h : Agrees eval ref) (host : Host) (closure : Closure)
    (args : List Value) :
    perform (Eval.callClosure host eval closure args) = callClosure host ref closure args := by
  unfold Eval.callClosure callClosure
  dsimp only
  split
  · rw [perform_settled, perform_inCall]
    congr 2
    rw [← perform_statements h]
    exact perform_bindParameters h _ args _
  · rfl

theorem perform_apply (h : Agrees eval ref) (host : Host) (callee : Value) (args : List Value) :
    perform (Eval.apply host eval callee args) = apply host ref callee args := by
  cases callee with
  | function id =>
    simp only [Eval.apply, apply]
    rw [perform_bind]
    refine bind_congr fun o => ?_
    cases o with
    | none => rfl
    | some closure => exact perform_callClosure h host closure args
  | _ => rfl

/-! ## Imports -/

/-- What is left of a signal outside an import. -/
theorem perform_importResult (file : String) (x : Eval Value) :
    perform (do return Eval.importResult file (← x)) =
      handleImport file (do let _ ← perform x; return .null) := by
  funext m
  unfold handleImport
  rw [perform_bind, bind_run, tryCatch_run, bind_run, perform_run]
  unfold act
  cases x m with
  | error reason after => rfl
  | ok v after => cases v <;> rfl

theorem perform_inFile (file : String) (x : Eval Value) :
    perform (inFile file x) = inFile file (perform x) := rfl

theorem perform_frame_bind (k : Eval.Frame → Eval Value) (m : Machine) :
    perform (liftM Eval.frame >>= k) m = perform (k (Eval.Frame.of m)) m := rfl

theorem handleImport_frame_bind (file : String) (k : Eval.Frame → Raising Value) (m : Machine) :
    handleImport file (liftM Eval.frame >>= k) m = handleImport file (k (Eval.Frame.of m)) m := rfl

theorem perform_importFile (h : Agrees eval ref) (host : Host) (file : String) :
    perform (Eval.importFile host eval file) = importFile host ref file := by
  funext m
  unfold Eval.importFile importFile Eval.inImport
  rw [bind_assoc, bind_assoc, perform_frame_bind, handleImport_frame_bind]
  -- Both sides now load the file in the frame of `m`.
  cases host.load (Eval.Frame.of m).imports file with
  | error reason => rfl
  | ok p =>
    simp only [bind_assoc, pure_bind]
    rw [← perform_statements h, ← perform_inFile, ← perform_inBracket, ← perform_importResult]

theorem perform_importValue (h : Agrees eval ref) (host : Host) (v : Value) :
    perform (Eval.importValue host eval v) = importValue host ref v := by
  cases v with
  | string file => exact perform_importFile h host file
  | _ => rfl

/-! ## Expressions -/

theorem perform_exprStep (h : Agrees eval ref) (host : Host) (fuel : Nat) (e : Expr) :
    perform (Eval.exprStep host fuel eval e) = exprStep host fuel ref e := by
  cases e with
  | integer _ _ | float _ _ | string _ _ | boolean _ _ | null _ => rfl
  | identifier _ _ | step _ _ _ | function _ _ | scopeAccess _ _ _ => rfl
  | unary op operand _ =>
    simp only [Eval.exprStep, exprStep]
    rw [← h operand]
    exact perform_andThen fun v _ => rfl
  | binary op left right _ =>
    simp only [Eval.exprStep, exprStep]
    rw [← h left, ← h right]
    exact perform_andThen fun l _ => perform_andThen fun r _ => rfl
  | assign target op value _ => exact perform_assignment h target op value
  | call function arguments _ =>
    simp only [Eval.exprStep, exprStep]
    rw [← h function]
    exact perform_andThen fun callee _ => perform_withValues h arguments fun args =>
      perform_apply h host callee args
  | index container key _ =>
    simp only [Eval.exprStep, exprStep]
    rw [← h container, ← h key]
    exact perform_andThen fun c _ => perform_andThen fun k _ => rfl
  | array elements _ => exact perform_withValues h elements fun items => rfl
  | hash pairs position =>
    have horder : Eval.exprStep host fuel eval (.hash pairs position) =
        orSignal (Eval.hashPairs eval .empty pairs) fun object => Eval.newHash object := by
      unfold Eval.exprStep orSignal
      refine bind_congr fun r => ?_
      cases r <;> rfl
    rw [horder]
    exact perform_hashPairs h pairs .empty fun object => rfl
  | conditional condition consequence alternative _ =>
    simp only [Eval.exprStep, exprStep]
    rw [← h condition]
    refine perform_andThen fun v _ => ?_
    split
    · exact perform_block h consequence
    · cases alternative with
      | none => rfl
      | some other => exact perform_block h other
  | ternary condition consequence alternative _ =>
    simp only [Eval.exprStep, exprStep]
    rw [← h condition]
    refine perform_andThen fun v _ => ?_
    split
    · exact h consequence
    · exact h alternative
  | elvis left right _ =>
    simp only [Eval.exprStep, exprStep]
    rw [← h left]
    refine perform_andThen fun v hv => ?_
    split
    · exact raise_of_plain hv
    · exact h right
  | loop initializer condition clause body _ =>
    exact perform_loop h fuel initializer condition clause body
  | methodCall receiver method arguments _ =>
    simp only [Eval.exprStep, exprStep]
    rw [← h receiver]
    exact perform_andThen fun r _ => perform_withValues h arguments fun args => rfl
  | importFile path _ =>
    simp only [Eval.exprStep, exprStep]
    rw [← h path]
    exact perform_andThen fun v _ => perform_importValue h host v

/-- The induction is on how deep evaluation may nest. -/
theorem agrees_expr (host : Host) (fuel : Nat) : Agrees (Eval.expr host fuel) (expr host fuel) := by
  induction fuel with
  | zero => exact fun _ => rfl
  | succ fuel ih =>
    intro e
    rw [Eval.expr, nested_run, expr]
    exact perform_exprStep ih host fuel e

end Raising

/-- A program that hands signals on as values does what it does with exceptions: it ends with the
same result, or for the same reason, and leaves the same state behind. -/
theorem Eval.program_eq_raising (host : Host) (fuel : Nat) (p : Program) :
    Eval.program host fuel p = Raising.program host fuel p := by
  funext m
  have hrun := congrFun (Raising.perform_statements (Raising.agrees_expr host fuel) p) m
  unfold Raising.program Raising.handleProgram Eval.program
  rw [← hrun, bind_run, Raising.perform_run]
  cases (Eval.statements (Eval.expr host fuel) .null p : Eval Value) m with
  | error reason after => rfl
  | ok v after => cases v <;> rfl

end ScriptLang
