-- Evaluations stay on their charts. There is one lemma for each form of expression and of
-- statement, and from them follows that every run which starts on a chart stays on it.
import ScriptLang.Proofs.Chart

namespace ScriptLang

open Eval

instance : Nonempty Heap := ⟨.empty⟩

namespace Chart

/-- Expressions are evaluated along a chart. -/
def Evaluates (K : Chart) (eval : EvalExpr Traced) : Prop :=
  ∀ {e c}, K.Visits (.expr e) c → K.Leads .loose c.marks (e.check c).marks (eval e)

variable {K : Chart} {eval : EvalExpr Traced} {fit : Fit} {a d : Marks} {c : Checker}

/-! ## Several expressions -/

theorem values (he : K.Evaluates eval) {es : List Expr} (h : K.Visits (.exprs es) c) :
    K.Leads .loose c.marks (checkExprs es c).marks (Eval.values eval es) := by
  induction es generalizing c with
  | nil => exact .pure _
  | cons e es ih =>
    have hrest := ih (K.part h (.tail _ (.head _)))
    refine (he (K.part h (.head _))).bind fun v => ?_
    split
    · exact (Leads.pure _).mono hrest.le
    · refine hrest.bind fun r => ?_
      cases r <;> exact .pure _

theorem withValues (he : K.Evaluates eval) {es : List Expr} (h : K.Visits (.exprs es) c)
    {f : List Value → Traced Value}
    (hf : ∀ vs, K.Leads .loose (checkExprs es c).marks d (f vs)) :
    K.Leads .loose c.marks d (Eval.withValues eval es f) := by
  refine (values he h).bind fun r => ?_
  cases r with
  | error signal => exact (Leads.pure signal).mono (hf []).le
  | ok vs => exact hf vs

/-! ## Assignments -/

theorem operate (op : BinaryOp) (l r : Value) : K.Leads fit a a (Eval.operate op l r) :=
  (Leads.quiet .heap).bind fun _ => .pure _

theorem combined (op : Option BinaryOp) (current value : Value) :
    K.Leads fit a a (Eval.combined op current value) := by
  cases op with
  | none => exact .pure value
  | some op => exact operate op current value

theorem assignName {name : String} {op : Option BinaryOp} {value : Expr}
    (hv : K.Leads .loose a d (eval value)) :
    K.Leads .loose a d (Eval.assignName eval name op value) := by
  refine (Leads.quiet (.lookup? name)).bind fun o => ?_
  cases o with
  | none => exact (Leads.fault _).mono hv.le
  | some current =>
    refine hv.andThen fun v => (combined op current v).bind fun result => ?_
    split
    · exact .pure result
    · exact (Leads.gain (.assign name result)).bind fun _ => .pure result

theorem assignElement {container key value : Expr} {op : Option BinaryOp} {b b' : Marks}
    (hc : K.Leads .loose a b (eval container)) (hk : K.Leads .loose b b' (eval key))
    (hv : K.Leads .loose b' d (eval value)) :
    K.Leads .loose a d (Eval.assignElement eval container key op value) := by
  refine hc.andThen fun container => hk.andThen fun key => hv.andThen fun value => ?_
  cases op with
  | none => exact .quiet (.onHeap _)
  | some op =>
    refine (Leads.quiet (.readElement container key)).bind fun current => ?_
    split
    · exact .pure current
    · refine (operate op current value).bind fun result => ?_
      split
      · exact .pure result
      · exact .quiet (.onHeap _)

theorem assignment (he : K.Evaluates eval) {target value : Expr} (op : Option BinaryOp)
    (ht : K.Visits (.expr target) c) (hv : K.Visits (.expr value) (target.check c)) :
    K.Leads .loose c.marks (value.check (target.check c)).marks
      (Eval.assignment eval target op value) := by
  have hskip := fun h => ((he ht).le h).trans ((he hv).le h)
  cases target with
  | identifier name position =>
    have hvalue := he hv
    rw [show (Expr.check (.identifier name position) c).marks = c.marks from
      Checker.read_marks name position c] at hvalue
    exact assignName hvalue
  | index container key position =>
    exact assignElement (he (K.part ht (.head _))) (he (K.part ht (.tail _ (.head _)))) (he hv)
  | _ => exact (Leads.fault _).mono hskip

theorem deleteElement (he : K.Evaluates eval) {target : Expr} (h : K.Visits (.expr target) c) :
    K.Leads .loose c.marks (target.check c).marks (Eval.deleteElement eval target) := by
  have hskip := (he h).le
  cases target with
  | index container key _ =>
    cases container with
    | identifier _ _ =>
      refine (he (K.part h (.head _))).andThen fun container => ?_
      exact (he (K.part h (.tail _ (.head _)))).andThen fun key => .quiet (.onHeap _)
    | _ => exact (Leads.fault _).mono hskip
  | _ => exact (Leads.fault _).mono hskip

/-! ## Statements -/

theorem branchValues (he : K.Evaluates eval) {bs : List (String × Expr)}
    (h : K.Visits (.branches bs) c) :
    K.Leads .loose c.marks (checkBranches bs c).marks (Eval.branchValues eval bs) := by
  induction bs generalizing c with
  | nil => exact .pure _
  | cons branch bs ih =>
    have hrest := ih (K.part h (.tail _ (.head _)))
    refine (he (K.part h (.head _))).bind fun v => ?_
    split
    · exact (Leads.pure _).mono hrest.le
    · refine hrest.bind fun r => ?_
      cases r <;> exact .pure _

theorem var (he : K.Evaluates eval) {name : String} {value : Expr} {position : Position}
    (h : K.Visits (.statement (.var name value position)) c) :
    K.Leads .exact c.marks (Statement.check (.var name value position) c).marks
      (statementStep eval (.var name value position)) := by
  have hname : K.Declares name := ⟨_, _, h, List.mem_singleton_self name⟩
  have hvalue := he (K.part h (.head _))
  have hrun : K.Leads .loose ((c.bind name position).declare name).marks _
      (statementStep eval (.var name value position)) :=
    hvalue.andThen fun v => (Leads.binds hname (.define name v)).bind fun _ => .pure _
  -- The name is declared before its value is evaluated and bound behind it.
  refine hrun.refit (fun ht => ?_) fun m hfit => .declare name ?_
  · have hle := Checker.le_of_declare (hvalue.le ht)
    rwa [Checker.bind_marks] at hle
  · rwa [Checker.bind_marks]

theorem statementStep (he : K.Evaluates eval) {s : Statement} (h : K.Visits (.statement s) c) :
    K.Leads .exact c.marks (s.check c).marks (statementStep eval s) := by
  cases s with
  | var name value position => exact var he h
  | assignment target op value _ =>
    exact (assignment he op (K.part h (.head _)) (K.part h (.tail _ (.head _)))).tighten
  | returning value _ =>
    cases value with
    | none => exact .pure _
    | some e =>
      have hpart := K.part (K.part h (.head _)) (.head _)
      exact ((he hpart).andThen fun v => .pure _).tighten
  | breaking _ => exact .pure _
  | delete target _ => exact (deleteElement he (K.part h (.head _))).tighten
  | enum name bs position =>
    have hname : K.Declares name := ⟨_, _, h, List.mem_singleton_self name⟩
    have hbs := branchValues he (K.part h (.head _))
    have hmarks : (Statement.check (.enum name bs position) c).marks =
        (name, true) :: (checkBranches bs c).marks := by
      simp [Statement.check]
    rw [hmarks]
    refine (hbs.bind fun r => ?_).tighten
    cases r with
    | error signal => exact (Leads.pure signal).mono fun _ => .define name _
    | ok branches => exact (Leads.binds hname (.bindEnum name branches)).bind fun _ => .pure _
  | expression e _ => exact (he (K.part h (.head _))).tighten

theorem statement (he : K.Evaluates eval) {s : Statement} (h : K.Visits (.statement s) c) :
    K.Leads .exact c.marks (s.check c).marks (Eval.statement eval s) := by
  refine Leads.bind (.note fun m hfit => ?_) fun _ => statementStep he h
  exact ⟨c, h, fun ht => (hfit ht).loosen⟩

theorem statements (he : K.Evaluates eval) {ss : List Statement} (last : Value)
    (h : K.Visits (.statements ss) c) :
    K.Leads .exact c.marks (checkStatements ss c).marks (Eval.statements eval last ss) := by
  induction ss generalizing c last with
  | nil => exact .pure last
  | cons s ss ih =>
    have hrest := K.part h (.tail _ (.head _))
    refine (statement he (K.part h (.head _))).bind fun v => ?_
    split
    · exact (Leads.pure v).mono (ih v hrest).le
    · exact ih v hrest

theorem block (he : K.Evaluates eval) {b : Block}
    (h : K.Visits (.statements b.statements) c.enter) :
    K.Leads fit a a (Eval.block eval b) :=
  .inNewScope (statements he .null h)

/-! ## Loops -/

theorem endsBefore (he : K.Evaluates eval) {condition : Option Expr} (result : Value)
    (h : K.Visits (.exprs condition.toList) c) :
    K.Leads .loose c.marks (checkExprs condition.toList c).marks
      (Eval.endsBefore eval condition result) := by
  cases condition with
  | none => exact .pure none
  | some e =>
    refine (he (K.part h (.head _))).bind fun v => ?_
    split
    · exact .pure _
    · split <;> exact .pure _

theorem signalOf {x : Traced Value} (h : K.Leads fit a d x) :
    K.Leads fit a d (Eval.signalOf x) := by
  refine h.bind fun v => ?_
  split <;> exact .pure _

theorem update (he : K.Evaluates eval) {clause : Option Expr}
    (h : K.Visits (.exprs clause.toList) c) :
    K.Leads .loose c.marks (checkExprs clause.toList c).marks (Eval.update eval clause) := by
  cases clause with
  | none => exact .pure none
  | some e => exact signalOf (he (K.part h (.head _)))

theorem start (he : K.Evaluates eval) {initializer : Option Statement}
    (h : K.Visits (.statements initializer.toList) c) :
    K.Leads .exact c.marks (checkStatements initializer.toList c).marks
      (Eval.start eval initializer) := by
  cases initializer with
  | none => exact .pure none
  | some s => exact signalOf (statement he (K.part h (.head _)))

/-- Passes of a loop go round: behind the first clause every name has its value, so the other
clauses may be evaluated any number of times. -/
theorem passes {condition clause : Option Expr} {body : Block}
    (ht : ∀ result, K.Leads .loose a a (Eval.endsBefore eval condition result))
    (hb : K.Leads .loose a a (Eval.block eval body))
    (hu : K.Leads .loose a a (Eval.update eval clause)) (fuel : Nat) (result : Value) :
    K.Leads .loose a a (Eval.passes eval condition clause body fuel result) := by
  induction fuel generalizing result with
  | zero => exact .quiet .exhausted
  | succ fuel ih =>
    refine (ht result).bind fun o => ?_
    cases o with
    | some v => exact .pure v
    | none =>
      refine hb.bind fun v => ?_
      cases v with
      | breaking => exact .pure _
      | _ =>
        dsimp only
        split
        · exact .pure _
        · refine hu.bind fun o => ?_
          cases o with
          | some signal => exact .pure signal
          | none => exact ih _

/-- A loop whose first clause leads to the marks `b`, whose test leads on to `b'` and whose last
clause leads on to `d`. -/
theorem loop_of_clauses {b b' : Marks} {initializer : Option Statement}
    {condition clause : Option Expr} {body : Block}
    (hs : K.Leads .exact [] b (Eval.start eval initializer))
    (ht : ∀ result, K.Leads .loose b b' (Eval.endsBefore eval condition result))
    (hu : K.Leads .loose b' d (Eval.update eval clause))
    (hb : K.Leads .loose d d (Eval.block eval body)) (fuel : Nat) :
    K.Leads fit a a (Eval.loop fuel eval initializer condition clause body) := by
  have hbd : K.Tracks → Marks.Le b d := fun h => ((ht .null).le h).trans (hu.le h)
  have hsettled : K.Tracks → Marks.Le [] b' := fun h => (hs.le h).trans ((ht .null).le h)
  have htest (result : Value) : K.Leads .loose d d (Eval.endsBefore eval condition result) :=
    (ht result).again hs.le hu.le fun _ => .refl d
  have hupdate : K.Leads .loose d d (Eval.update eval clause) :=
    hu.again hsettled (fun _ => .refl d) fun _ => .refl d
  have hpasses := passes htest hb hupdate fuel .null
  refine .inNewScope (hs.bind (d := d) fun o => ?_)
  cases o with
  | some signal => exact (Leads.pure signal).mono hbd
  | none => exact hpasses.again (fun h => (hs.le h).trans (hbd h)) (fun _ => .refl d) hbd

theorem loop (he : K.Evaluates eval) (fuel : Nat) {initializer : Option Statement}
    {condition clause : Option Expr} {body : Block} {position : Position}
    (h : K.Visits (.expr (.loop initializer condition clause body position)) c) :
    K.Leads fit a a (Eval.loop fuel eval initializer condition clause body) :=
  loop_of_clauses (start he (K.part h (.head _)))
    (fun result => endsBefore he result (K.part h (.tail _ (.head _))))
    (update he (K.part h (.tail _ (.tail _ (.head _)))))
    (block he (K.part h (.tail _ (.tail _ (.tail _ (.head _)))))) fuel

/-! ## Calls -/

theorem bindParameters (he : K.Evaluates eval) {position : Position} {ps : List Parameter}
    (args : List Value) (h : K.Visits (.parameters position ps) c) :
    K.Leads .exact c.marks (checkParameters position ps c).marks
      (Eval.bindParameters eval ps args) := by
  induction ps generalizing c args with
  | nil => exact .pure none
  | cons p ps ih =>
    have hname : K.Declares p.name := ⟨_, _, h, List.mem_singleton_self _⟩
    -- A parameter is bound to its argument or behind its default, and the others follow.
    have hbound (value : Value) (args : List Value) {c' : Checker}
        (hv : K.Visits (.parameters position ps) ((c'.bind p.name position).define p.name)) :
        K.Leads .exact c'.marks
          (checkParameters position ps ((c'.bind p.name position).define p.name)).marks
          (liftM (define p.name value) >>= fun _ => Eval.bindParameters eval ps args) := by
      have hrest := ih args hv
      rw [Checker.define_marks, Checker.bind_marks] at hrest
      exact (Leads.binds hname (.define p.name value)).bind fun _ => hrest
    cases p with
    | required name =>
      cases args with
      | nil => exact hbound .null [] (K.part h (.head _))
      | cons arg args => exact hbound arg args (K.part h (.head _))
    | defaulted name default =>
      have hdefault := he (K.part h (.head _))
      have hrest := K.part h (.tail _ (.head _))
      cases args with
      | cons arg args => exact (hbound arg args hrest).behind hdefault.le
      | nil =>
        refine hdefault.tighten.bind fun v => ?_
        split
        · exact (Leads.pure _).mono (hbound v [] hrest).le
        · exact hbound v [] hrest

theorem callBody (he : K.Evaluates eval) {literal : FunctionLiteral} {position : Position}
    (args : List Value) (h : K.Visits (.expr (.function literal position)) c) :
    K.Leads .exact []
      (checkStatements literal.body.statements (checkParameters position literal.parameters
        (c.named literal.name position).enter)).marks (Eval.callBody eval literal args) := by
  have hbody := statements he .null (K.part h (.tail _ (.head _)))
  refine (bindParameters he args (K.part h (.head _))).bind fun o => ?_
  cases o with
  | some signal => exact (Leads.pure signal).mono hbody.le
  | none => exact hbody

theorem callClosure (host : Host) (he : K.Evaluates eval) {closure : Closure} (args : List Value)
    (hk : K.Knows closure.literal) :
    K.Leads fit a a (Eval.callClosure host eval closure args) := by
  obtain ⟨position, c, h⟩ := hk
  unfold Eval.callClosure
  dsimp only
  split
  · rename_i ha
    exact (Leads.inCall ha ⟨position, c, h⟩ (callBody he args h)).bind fun _ => .pure _
  · exact .fault _

/-- The functions that values name are on the chart. -/
theorem closure?_bind {id : FunctionId} {f : Option Closure → Traced Value}
    (hf : ∀ o, (∀ closure, o = some closure → K.Knows closure.literal) →
      K.Leads fit a a (f o)) : K.Leads fit a a (liftM (closure? id) >>= f) := by
  refine ⟨fun _ => .refl a, fun m hm hfit => ?_⟩
  have hrun : (liftM (closure? id) >>= f : Traced Value) m =
      behind ⟨none, m⟩ (f (m.store.definitions.function? id) m) := rfl
  rw [hrun]
  refine .behind ⟨hm, trivial⟩ ((hf _ fun closure hc => ?_).charted m hm hfit)
  exact hm.functions closure (Array.mem_of_getElem? hc)

theorem apply (host : Host) (he : K.Evaluates eval) (callee : Value) (args : List Value) :
    K.Leads fit a a (Eval.apply host eval callee args) := by
  cases callee with
  | function id =>
    refine closure?_bind fun o hk => ?_
    cases o with
    | none => exact .fault _
    | some closure => exact callClosure host he args (hk closure rfl)
  | builtin b => exact .quiet (.applyBuiltin host b args)
  | _ => exact .fault _

/-! ## Imports -/

theorem load_ok {host : Host} {imports : List String} {file : String} {p : Program}
    (h : host.load imports file = .ok p) : ∃ source, p = (parseProgram source).program := by
  unfold Host.load at h
  dsimp only at h
  split at h
  · cases h
  · split at h
    · cases h
    · rename_i source _
      split at h
      · cases h
        exact ⟨source, rfl⟩
      · cases h

theorem inImport {host : Host} {file : String} (he : K.Evaluates eval) (hn : ¬K.Tracks)
    (hs : ∀ source, ∃ c, K.Visits (.statements (parseProgram source).program) c) :
    K.Leads fit a a (Eval.inImport host file (Eval.statements eval .null)) := by
  refine ⟨fun _ => .refl a, fun m hm hfit => ?_⟩
  unfold Eval.inImport
  rw [frame_bind_traced]
  refine .behind ⟨hm, trivial⟩ ?_
  cases hload : host.load (Frame.of m).imports file with
  | error reason => exact .pure hm _
  | ok p =>
    obtain ⟨source, rfl⟩ := load_ok hload
    obtain ⟨c, hc⟩ := hs source
    have hrun := (statements he .null hc).charted _ (hm.enter (.importing (host.pathOf file)))
      fun ht => absurd ht hn
    refine Charted.bind (.inBracket hm hrun fun ht => absurd ht hn) (fun _ => .refl a) ?_
    exact fun v after hafter _ => .pure hafter _

theorem importValue (host : Host) (he : K.Evaluates eval) (hn : ¬K.Tracks)
    (hs : ∀ source, ∃ c, K.Visits (.statements (parseProgram source).program) c) (v : Value) :
    K.Leads fit a a (Eval.importValue host eval v) := by
  cases v with
  | string file =>
    refine (inImport he hn hs).bind fun r => ?_
    cases r with
    | error reason => exact .fault _
    | ok result => exact .pure _
  | _ => exact .fault _

/-! ## Expressions -/

theorem hashPairs (he : K.Evaluates eval) {ps : List (Expr × Expr)} (object : HashObject)
    (h : K.Visits (.pairs ps) c) :
    K.Leads .loose c.marks (checkPairs ps c).marks (Eval.hashPairs eval object ps) := by
  induction ps generalizing c object with
  | nil => exact .pure _
  | cons pair ps ih =>
    have hkey := he (K.part h (.head _))
    have hvalue := he (K.part h (.tail _ (.head _)))
    have hrest (object : HashObject) := ih object (K.part h (.tail _ (.tail _ (.head _))))
    have hskip := fun ht => (hvalue.le ht).trans ((hrest object).le ht)
    refine hkey.bind fun k => ?_
    split
    · exact (Leads.pure _).mono hskip
    · split
      · exact (Leads.pure _).mono hskip
      · refine hvalue.bind fun v => ?_
        split
        · exact (Leads.pure _).mono (hrest object).le
        · exact hrest _

theorem makeFunction {literal : FunctionLiteral} {position : Position}
    (h : K.Visits (.expr (.function literal position)) c) :
    K.Leads fit c.marks (c.named literal.name position).marks
      (liftM (makeFunction literal)) := by
  refine .act (.makeFunction literal) ?_ ?_ ?_
  · exact fun _ => Checker.le_named literal.name position c
  · intro name hmem
    refine ⟨⟨_, _, h, hmem⟩, ?_⟩
    rw [Option.mem_toList] at hmem
    rw [hmem, Checker.named, Checker.define_marks, Marks.lookup_cons_self]
  · intro other hmem
    rw [List.mem_singleton.mp hmem]
    exact ⟨position, c, h⟩

theorem exprStep (host : Host) (fuel : Nat) (he : K.Evaluates eval) {e : Expr}
    (h : K.Visits (.expr e) c) :
    K.Leads .loose c.marks (e.check c).marks (Eval.exprStep host fuel eval e) := by
  cases e with
  | integer | float | string | boolean | null => exact .pure _
  | identifier name position =>
    exact (Leads.quiet (.lookup name)).mono fun _ => .of_eq (c.read_marks name position).symm
  | unary op operand _ => exact (he (K.part h (.head _))).andThen fun v => .pure _
  | binary op left right _ =>
    exact (he (K.part h (.head _))).andThen fun l =>
      (he (K.part h (.tail _ (.head _)))).andThen fun r => operate op l r
  | step op name position =>
    exact (Leads.gain (.step op name)).mono fun _ => .of_eq (c.read_marks name position).symm
  | assign target op value _ =>
    exact assignment he op (K.part h (.head _)) (K.part h (.tail _ (.head _)))
  | call function arguments _ =>
    exact (he (K.part h (.head _))).andThen fun callee =>
      withValues he (K.part h (.tail _ (.head _))) fun args => apply host he callee args
  | index container key _ =>
    exact (he (K.part h (.head _))).andThen fun container =>
      (he (K.part h (.tail _ (.head _)))).andThen fun key => .quiet (.readElement container key)
  | array elements _ => exact withValues he (K.part h (.head _)) fun items => .quiet (.onHeap _)
  | hash pairs _ =>
    refine (hashPairs he .empty (K.part h (.head _))).bind fun r => ?_
    cases r with
    | error signal => exact .pure signal
    | ok object => exact .quiet (.onHeap _)
  | conditional condition consequence alternative position =>
    have hmarks : (Expr.check (.conditional condition consequence alternative position) c).marks =
        (condition.check c).marks := by
      cases alternative <;> simp [Expr.check]
    rw [hmarks]
    refine (he (K.part h (.head _))).andThen fun v => ?_
    split
    · exact block he (K.part h (.tail _ (.head _)))
    · cases alternative with
      | none => exact .pure _
      | some other => exact block he (K.part h (.tail _ (.tail _ (.head _))))
  | ternary condition consequence alternative _ =>
    have hyes := he (K.part h (.tail _ (.head _)))
    have hno := he (K.part h (.tail _ (.tail _ (.head _))))
    refine (he (K.part h (.head _))).andThen fun v => ?_
    split
    · exact hyes.mono hno.le
    · exact hno.behind hyes.le
  | elvis left right _ =>
    have hright := he (K.part h (.tail _ (.head _)))
    refine (he (K.part h (.head _))).andThen fun v => ?_
    split
    · exact (Leads.pure v).mono hright.le
    · exact hright
  | loop initializer condition update body _ =>
    exact (loop he fuel h).mono fun _ => (Node.follows (.expr (.loop ..)) c).marks
  | function literal position =>
    rw [Expr.check_function_marks]
    exact makeFunction h
  | methodCall receiver method arguments _ =>
    exact (he (K.part h (.head _))).andThen fun receiver =>
      withValues he (K.part h (.tail _ (.head _))) fun args =>
        .quiet (.callMethod receiver method args)
  | scopeAccess name branch position =>
    exact (Leads.quiet (.scopeAccess name branch)).mono fun _ =>
      .of_eq (c.read_marks name position).symm
  | importFile path _ =>
    obtain ⟨hn, hs⟩ := K.imports h
    exact (he (K.part h (.head _))).andThen (importValue host he hn hs)

/-- Every expression is evaluated along the chart. The induction is on how deep evaluation may
nest. -/
theorem expr (host : Host) (fuel : Nat) : K.Evaluates (Eval.expr host fuel) := by
  induction fuel with
  | zero =>
    intro e c h
    exact (Leads.quiet .exhausted).mono fun _ => (Node.follows (.expr e) c).marks
  | succ fuel ih =>
    intro e c h
    refine Leads.bind (.note fun m hfit => ⟨c, h, hfit⟩) fun _ => exprStep host fuel ih h

theorem program (host : Host) (fuel : Nat) {p : Program} (h : K.Visits (.statements p) c) :
    K.Leads .exact c.marks (checkStatements p c).marks (Eval.program host fuel p) :=
  (statements (expr host fuel) .null h).bind fun _ => .pure _

variable {p : Program} {m : Machine}

/-- A run that starts on the chart stays on it. -/
theorem moments_meet (host : Host) (fuel : Nat) (h : K.Visits (.statements p) c)
    (hm : K.Covers m) (hfit : K.Tracks → Fits .exact c.marks m) :
    ∀ k ∈ moments host fuel p m, K.Meets k := by
  have hrun := (program host fuel h).charted m hm hfit
  exact List.forall_mem_cons.mpr ⟨⟨hm, trivial⟩, hrun.moments⟩

/-- The state that a run leaves has only functions and names of the chart. -/
theorem covers_left (host : Host) (fuel : Nat) (h : K.Visits (.statements p) c)
    (hm : K.Covers m) (hfit : K.Tracks → Fits .exact c.marks m) :
    K.Covers (left ((Eval.program host fuel p : Eval Value) m)) := by
  rw [← (follows_program host fuel p m).result]
  exact ((program host fuel h).charted m hm hfit).covers

end Chart

end ScriptLang
