-- Imports inside imports. No two of the files that are being imported at once are the same, a file
-- that would come up a second time is refused unread, and an error that comes up while files are
-- being imported ends the run and names them all, from the outside to the inside.
import ScriptLang.Proofs.CompoundAssignment
import ScriptLang.Proofs.Visits

namespace ScriptLang

open Eval

variable {α β : Type} {host : Host}

/-! ## Open imports are different -/

/-- No two of the open imports are the same path. -/
def Machine.DistinctImports (m : Machine) : Prop := (m.imports.map Path.components).Nodup

/-- A file is only loaded if its path is not open. -/
theorem Host.not_mem_of_load {imports : List String} {file : String} {p : Program}
    (h : host.load imports file = .ok p) :
    Path.components (host.pathOf file) ∉ imports.map Path.components := by
  unfold Host.load at h
  dsimp only at h
  split at h
  · cases h
  · rename_i hany
    intro hmem
    obtain ⟨path, hpath, hsame⟩ := List.mem_map.mp hmem
    refine hany (List.any_eq_true.mpr ⟨path, hpath, ?_⟩)
    simp [Path.same, hsame]

theorem Host.load_of_open {imports : List String} {file : String}
    (h : ∃ path ∈ imports, Path.same (host.pathOf file) path = true) :
    host.load imports file = .error .cyclicImport := by
  unfold Host.load
  dsimp only
  rw [if_pos (List.any_eq_true.mpr h)]

theorem Sound.behind {I : Machine → Prop} {P : α → Prop} {k : Moment}
    {t : List Moment × EStateM.Result Stop Machine α} (hk : I k.machine) (h : Sound I P t) :
    Sound I P (behind k t) :=
  ⟨List.forall_mem_cons.mpr ⟨hk, h.moments⟩, h.left, h.result⟩

theorem Eval.Restores.keepsDistinct {step : Eval α} (h : Restores step) {P : α → Prop}
    (hp : ∀ m a after, step m = .ok a after → P a) : Keeps Machine.DistinctImports step P := by
  intro m hm
  have himports : (left (step m)).imports = m.imports := congrArg Frame.imports (h m)
  have hleft : (left (step m)).DistinctImports := by
    unfold Machine.DistinctImports
    rw [himports]
    exact hm
  cases hr : step m with
  | ok a after =>
    rw [hr] at hleft
    exact ⟨hp m a after hr, hleft⟩
  | error stop after =>
    rw [hr] at hleft
    exact hleft

/-- To leave a bracket opens no import. -/
theorem Machine.DistinctImports.leave {m : Machine} (h : m.DistinctImports) (b : Bracket)
    (before : Machine) : (b.leave before m).DistinctImports := by
  cases b with
  | scope inner | call => exact h
  | importing path =>
    change (m.imports.tail.map Path.components).Nodup
    rw [List.map_tail]
    exact (List.tail_sublist _).nodup h

/-- Every evaluation that starts with different imports only passes through states with different
imports. -/
def distinctImports (host : Host) : Rules host Traced Traced where
  Kept _ := True
  Given _ := True
  Flows _ := True
  Rel x _ P := ∀ m, m.DistinctImports → Sound Machine.DistinctImports P (x m)
  kept_of_plain _ := trivial
  given_of_kept _ := trivial
  given_error _ := trivial
  given_settled _ := trivial
  flows_of_given _ := trivial
  flows_breaking := trivial
  flows_returning _ := trivial
  mono h hpq m hm := { h m hm with
    result := fun a after hr => hpq a ((h m hm).result a after hr) }
  pure ha m hm := ⟨by simp [Pure.pure], hm, by rintro _ _ ⟨⟩; exact ha⟩
  bind h hf m hm := (h m hm).bind fun a after hafter ha => hf a ha after hafter
  act h m hm := .act ((Stays.taken h).frame.keepsDistinct fun _ _ _ => h.result_of_true) hm
  evaluates _ m hm := .note _ hm
  executes _ m hm := .note _ hm
  nested _ _ _ _ h := h
  scope h m hm := by
    rw [inNewScope_traced]
    refine .behind hm (.behind hm ?_)
    exact .inBracket hm (fun _ hlast => hlast.leave _ _) (h _ hm)
  call closure args x _ P _ h m hm := by
    rcases Nat.lt_or_ge m.depth host.maxCallDepth with hlt | hge
    · rw [inCall_granted hlt]
      refine .behind hm (.behind hm (.behind hm ?_))
      refine .inBracket hm (fun _ hlast => hlast.leave _ _) ?_
      exact .inBracket hm (fun _ hlast => hlast.leave _ _) (h _ hm)
    · rw [inCall_refused hge]
      exact ⟨by simp [hm], hm, nofun⟩
  load file f _ P h m hm := by
    unfold Eval.inImport
    rw [frame_bind_traced]
    refine .behind hm ?_
    cases hload : host.load (Frame.of m).imports file with
    | error reason => exact ⟨by simp [Pure.pure], hm, by rintro _ _ ⟨⟩ _ ⟨⟩⟩
    | ok p =>
      -- The path of the file is not among those that are open, so it may join them.
      have hinner : ((Bracket.importing (host.pathOf file)).enter m).DistinctImports :=
        List.nodup_cons.mpr ⟨Host.not_mem_of_load hload, hm⟩
      have hrun := Sound.inBracket hinner (fun _ hlast => hlast.leave _ _) (h p _ hinner)
      refine .bind hrun fun a after hafter ha => ?_
      refine ⟨by simp [Pure.pure], hafter, ?_⟩
      rintro _ _ ⟨⟩ _ ⟨⟩
      exact ha

/-! ## Errors inside files -/

/-- A fault as it is told outside the files that it came up in. -/
def Fault.inFiles (files : List String) (f : Fault) : Fault := files.foldr .inFile f

theorem Fault.message_inFiles (files : List String) (f : Fault) :
    (f.inFiles files).message = ": ".intercalate (files ++ [f.message]) := by
  induction files with
  | nil => simp [inFiles]
  | cons file files ih =>
    have hmessage : (f.inFiles (file :: files)).message =
        file ++ ": " ++ (f.inFiles files).message := rfl
    rw [hmessage, ih, List.cons_append, String.intercalate_cons_of_ne_nil (by simp)]

/-- What a run comes to gives an error: the expression that it evaluates there or the statement
that it carries out. (A call is part of the expression that makes it.) -/
def Visit.Raises (host : Host) (k : Visit) (f : Fault) : Prop :=
  match k.event with
  | .evaluates e =>
    ∃ after, (expr host (k.level + 1) e : Eval Value) k.machine = .ok (.error f) after
  | .executes s =>
    ∃ after, (statement (expr host k.level) s : Eval Value) k.machine = .ok (.error f) after
  | .calls _ _ => False

/-- An evaluation that every error inside it leaves: what comes of the evaluation is the error with
the names of the files that it comes out of. Where there are no errors among the results, `fails`
says what stands for one. -/
def Escapes (host : Host) (level : Nat) (fails : Fault → α) (x : Visiting α) : Prop :=
  ∀ m, ∀ k ∈ (x level m).1, ∀ f, k.Raises host f →
    ∃ after, (x level m).2 = .ok (fails (f.inFiles k.files)) after

namespace Escapes

variable {level : Nat} {fails : Fault → α} {fails' : Fault → β}

theorem pure (a : α) : Escapes host level fails (Pure.pure a) := nofun

theorem act (step : Eval α) : Escapes host level fails (liftM step) := nofun

/-- Two parts, of which the second hands on what the first makes of an error. -/
theorem seq {x : Visiting α} {next : α → Visiting β}
    (hx : ∀ m, ∀ k ∈ (x level m).1, ∀ f, k.Raises host f → ∃ a between,
      (x level m).2 = .ok a between ∧ next a = Pure.pure (fails' (f.inFiles k.files)))
    (hnext : ∀ a, Escapes host level fails' (next a)) :
    Escapes host level fails' (x >>= next) := by
  intro m
  change ∀ k ∈ (Visiting.go next level (x level m)).1, ∀ f, k.Raises host f →
    ∃ after, (Visiting.go next level (x level m)).2 = _
  have hm := hx m
  rcases hr : x level m with ⟨before, r⟩
  rw [hr] at hm
  intro k hk f hf
  cases r with
  | error stop between =>
    obtain ⟨a, after, ⟨⟩, -⟩ := hm k hk f hf
  | ok a between =>
    rcases List.mem_append.mp hk with hb | ha
    · -- The error came up in the first part, so the second only hands it on.
      obtain ⟨_, _, ⟨⟩, hpure⟩ := hm k hb f hf
      refine ⟨between, ?_⟩
      simp only [Visiting.go, hpure]
      rfl
    · exact hnext a between k ha f hf

theorem bind {x : Visiting α} {next : α → Visiting β} (hx : Escapes host level fails x)
    (hfails : ∀ f, next (fails f) = Pure.pure (fails' f))
    (hnext : ∀ a, Escapes host level fails' (next a)) :
    Escapes host level fails' (x >>= next) := by
  refine seq (fun m k hk f hf => ?_) hnext
  obtain ⟨after, hr⟩ := hx m k hk f hf
  exact ⟨_, after, hr, hfails _⟩

/-- A step comes to nothing that could give an error. -/
theorem behind {step : Eval α} {next : α → Visiting β}
    (hnext : ∀ a, Escapes host level fails' (next a)) :
    Escapes host level fails' (liftM step >>= next) :=
  seq nofun hnext

theorem ite {c : Prop} [Decidable c] {x y : Visiting α} (hx : Escapes host level fails x)
    (hy : Escapes host level fails y) : Escapes host level fails (if c then x else y) := by
  split
  · exact hx
  · exact hy

theorem inBracket {x : Visiting α} (h : Escapes host level fails x) (b : Bracket) :
    Escapes host level fails (inBracket b x) := by
  intro m k hk f hf
  obtain ⟨after, hr⟩ := h (b.enter m) k hk f hf
  refine ⟨b.leave m after, ?_⟩
  change closed b m (x level (b.enter m)).2 = _
  rw [hr]
  rfl

theorem inNewScope {x : Visiting α} (h : Escapes host level fails x) :
    Escapes host level fails (inNewScope x) :=
  behind fun _ => behind fun _ => h.inBracket _

theorem inCall {x : Visiting α} (h : Escapes host level fails x) (limit : Nat) (closure : Closure)
    (args : List Value) : Escapes host level fails (inCall limit closure args x) := by
  refine seq ?_ fun _ => behind fun f => ite (act _) (behind fun _ => (h.inBracket _).inBracket _)
  -- What is told of the call itself is no error: those come up in its body.
  intro m k hk f hf
  rw [List.mem_singleton.mp hk] at hf
  cases hf

/-! ### Parts made of expressions -/

theorem andThen {x : Visiting Value} {next : Value → Visiting Value}
    (hx : Escapes host level .error x) (hnext : ∀ v, Escapes host level .error (next v)) :
    Escapes host level .error (andThen x next) :=
  hx.bind (fun _ => rfl) fun _ => ite (pure _) (hnext _)

theorem signalOf {x : Visiting Value} (hx : Escapes host level .error x) :
    Escapes host level (fun f => some (.error f)) (signalOf x) :=
  hx.bind (fun _ => rfl) fun _ => ite (pure _) (pure _)

section Expressions

variable {eval : EvalExpr Visiting} (he : ∀ e, Escapes host level .error (eval e))
include he

theorem values (es : List Expr) :
    Escapes host level (fun f => .error (.error f)) (values eval es) := by
  induction es with
  | nil => exact pure _
  | cons e es ih =>
    refine (he e).bind (fun _ => rfl) fun v => ite (pure _) (ih.bind (fun _ => rfl) fun r => ?_)
    cases r <;> exact pure _

theorem withValues (es : List Expr) {next : List Value → Visiting Value}
    (hnext : ∀ vs, Escapes host level .error (next vs)) :
    Escapes host level .error (withValues eval es next) := by
  refine (values he es).bind (fun _ => rfl) fun r => ?_
  cases r with
  | ok vs => exact hnext vs
  | error signal => exact pure _

theorem assignName (name : String) (op : Option BinaryOp) (value : Expr) :
    Escapes host level .error (assignName eval name op value) := by
  refine behind fun o => ?_
  cases o with
  | none => exact pure _
  | some current =>
    refine (he value).andThen fun v => ?_
    have hrest (result : Value) : Escapes host level .error (if result.isError then Pure.pure result
        else do
          liftM (Eval.assign name result)
          Pure.pure result) :=
      ite (pure _) (behind fun _ => pure _)
    cases op with
    | none => exact hrest v
    | some op => exact behind fun heap => hrest _

theorem assignElement (container key : Expr) (op : Option BinaryOp) (value : Expr) :
    Escapes host level .error (assignElement eval container key op value) := by
  refine (he container).andThen fun c => (he key).andThen fun k => (he value).andThen fun v => ?_
  cases op with
  | none => exact act _
  | some op => exact behind fun current => ite (pure _) (behind fun _ => ite (pure _) (act _))

theorem assignment (target : Expr) (op : Option BinaryOp) (value : Expr) :
    Escapes host level .error (assignment eval target op value) := by
  cases target with
  | identifier name _ => exact assignName he name op value
  | index container key _ => exact assignElement he container key op value
  | _ => exact pure _

theorem deleteElement (target : Expr) :
    Escapes host level .error (deleteElement eval target) := by
  cases target with
  | index container key _ =>
    cases container with
    | identifier _ _ => exact (he _).andThen fun c => (he key).andThen fun k => act _
    | _ => exact pure _
  | _ => exact pure _

theorem branchValues (branches : List (String × Expr)) :
    Escapes host level (fun f => .error (.error f)) (branchValues eval branches) := by
  induction branches with
  | nil => exact pure _
  | cons branch rest ih =>
    refine (he branch.2).bind (fun _ => rfl) fun v =>
      ite (pure _) (ih.bind (fun _ => rfl) fun r => ?_)
    cases r <;> exact pure _

theorem declareEnum (name : String) (branches : List (String × Expr)) :
    Escapes host level .error (declareEnum eval name branches) := by
  refine (branchValues he branches).bind (fun _ => rfl) fun r => ?_
  cases r with
  | error signal => exact pure _
  | ok made => exact behind fun _ => pure _

theorem statementStep (s : Statement) : Escapes host level .error (statementStep eval s) := by
  cases s with
  | var name value _ => exact (he value).andThen fun v => behind fun _ => pure _
  | assignment target op value _ => exact assignment he target op value
  | returning value _ =>
    cases value with
    | none => exact pure _
    | some e => exact (he e).andThen fun v => pure _
  | breaking _ => exact pure _
  | delete target _ => exact deleteElement he target
  | enum name branches _ => exact declareEnum he name branches
  | expression e _ => exact he e

theorem endsBefore (condition : Option Expr) (result : Value) :
    Escapes host level (fun f => some (.error f)) (endsBefore eval condition result) := by
  cases condition with
  | none => exact pure _
  | some e =>
    exact (he e).bind (fun _ => rfl) fun v => ite (pure _) (ite (pure _) (pure _))

theorem update (clause : Option Expr) :
    Escapes host level (fun f => some (.error f)) (update eval clause) := by
  cases clause with
  | none => exact pure _
  | some e => exact (he e).signalOf

theorem bindParameters (parameters : List Parameter) (args : List Value) :
    Escapes host level (fun f => some (.error f)) (bindParameters eval parameters args) := by
  induction parameters generalizing args with
  | nil => exact pure _
  | cons parameter rest ih =>
    cases args with
    | cons arg args => exact behind fun _ => ih args
    | nil =>
      cases parameter with
      | required name => exact behind fun _ => ih []
      | defaulted name default =>
        exact (he default).bind (fun _ => rfl) fun v => ite (pure _) (behind fun _ => ih [])

theorem hashPairs (pairs : List (Expr × Expr)) (object : HashObject) :
    Escapes host level (fun f => .error (.error f)) (hashPairs eval object pairs) := by
  induction pairs generalizing object with
  | nil => exact pure _
  | cons pair rest ih =>
    refine (he pair.1).bind (fun _ => rfl) fun k => ite (pure _) (ite (pure _) ?_)
    exact (he pair.2).bind (fun _ => rfl) fun v => ite (pure _) (ih _)

end Expressions

/-! ### Parts made of statements -/

/-- A statement that gives an error is what its own visit says. The others are inside it. -/
theorem statement (he : ∀ e, Escapes host level .error (expr host level e)) (s : Statement) :
    Escapes host level .error (statement (expr host level) s) := by
  intro m k hk f hf
  rcases List.mem_cons.mp hk with rfl | hinside
  · obtain ⟨after, hr⟩ := hf
    exact ⟨after, (statement_visiting s level m).trans hr⟩
  · exact statementStep he s m k hinside f hf

section Statements

variable {eval : EvalExpr Visiting} (hs : ∀ s, Escapes host level .error (Eval.statement eval s))
include hs

theorem statements (last : Value) (ss : List Statement) :
    Escapes host level .error (statements eval last ss) := by
  induction ss generalizing last with
  | nil => exact pure _
  | cons s ss ih => exact (hs s).bind (fun _ => rfl) fun v => ite (pure _) (ih v)

theorem block (b : Block) : Escapes host level .error (block eval b) :=
  (statements hs .null b.statements).inNewScope

theorem start (initializer : Option Statement) :
    Escapes host level (fun f => some (.error f)) (start eval initializer) := by
  cases initializer with
  | none => exact pure _
  | some s => exact (hs s).signalOf

/-- An error that leaves a file gets the name of the file. -/
theorem importFile (file : String) : Escapes host level .error (importFile host eval file) := by
  refine seq (fun m => ?_) fun r => ?_
  · rw [inImport_visiting]
    cases host.load m.imports file with
    | error reason => exact nofun
    | ok p =>
      intro k hk f hf
      -- Outside the file the visit has one file more, and so has the error.
      obtain ⟨inside, hmem, rfl⟩ := mem_leave.mp hk
      obtain ⟨after, hr⟩ := statements hs .null p _ inside hmem f hf
      exact ⟨_, _, leave_ok hr, rfl⟩
  · cases r <;> exact pure _

theorem importValue (v : Value) : Escapes host level .error (importValue host eval v) := by
  cases v with
  | string file => exact importFile hs file
  | _ => exact pure _

variable (he : ∀ e, Escapes host level .error (eval e))
include he

theorem passes (condition clause : Option Expr) (body : Block) (fuel : Nat) (result : Value) :
    Escapes host level .error (passes eval condition clause body fuel result) := by
  induction fuel generalizing result with
  | zero => exact act _
  | succ fuel ih =>
    refine (endsBefore he condition result).bind (fun _ => rfl) fun o => ?_
    cases o with
    | some v => exact pure _
    | none =>
      refine (block hs body).bind (fun _ => rfl) fun v => ?_
      cases v with
      | breaking => exact pure _
      | _ =>
        refine ite (pure _) ((update he clause).bind (fun _ => rfl) fun o => ?_)
        cases o with
        | some signal => exact pure _
        | none => exact ih _

theorem loop (fuel : Nat) (initializer : Option Statement) (condition clause : Option Expr)
    (body : Block) :
    Escapes host level .error (loop fuel eval initializer condition clause body) := by
  refine inNewScope ((start hs initializer).bind (fun _ => rfl) fun o => ?_)
  cases o with
  | some signal => exact pure _
  | none => exact passes hs he condition clause body fuel .null

theorem callClosure (closure : Closure) (args : List Value) :
    Escapes host level .error (callClosure host eval closure args) := by
  have hbody : Escapes host level .error (callBody eval closure.literal args) := by
    refine (bindParameters he _ args).bind (fun _ => rfl) fun o => ?_
    cases o with
    | some signal => exact pure _
    | none => exact statements hs .null _
  exact ite ((hbody.inCall _ closure args).bind (fun _ => rfl) fun _ => pure _) (pure _)

theorem apply (callee : Value) (args : List Value) :
    Escapes host level .error (apply host eval callee args) := by
  cases callee with
  | function id =>
    refine behind fun o => ?_
    cases o with
    | some closure => exact callClosure hs he closure args
    | none => exact pure _
  | builtin b => exact act _
  | _ => exact pure _

/-! ### Expressions -/

theorem exprStep (fuel : Nat) (e : Expr) :
    Escapes host level .error (exprStep host fuel eval e) := by
  cases e with
  | integer _ _ | float _ _ | string _ _ | boolean _ _ | null _ => exact pure _
  | identifier _ _ | step _ _ _ | function _ _ | scopeAccess _ _ _ => exact act _
  | unary op operand _ => exact (he operand).andThen fun v => pure _
  | binary op left right _ =>
    exact (he left).andThen fun l => (he right).andThen fun r => behind fun _ => pure _
  | assign target op value _ => exact assignment he target op value
  | call function arguments _ =>
    exact (he function).andThen fun callee => withValues he arguments fun args =>
      apply hs he callee args
  | index container key _ => exact (he container).andThen fun c => (he key).andThen fun k => act _
  | array elements _ => exact withValues he elements fun items => act _
  | hash pairs _ =>
    refine (hashPairs he pairs .empty).bind (fun _ => rfl) fun r => ?_
    cases r with
    | ok object => exact act _
    | error signal => exact pure _
  | conditional condition consequence alternative _ =>
    refine (he condition).andThen fun v => ite (block hs consequence) ?_
    cases alternative with
    | none => exact pure _
    | some other => exact block hs other
  | ternary condition consequence alternative _ =>
    exact (he condition).andThen fun v => ite (he consequence) (he alternative)
  | elvis left right _ => exact (he left).andThen fun v => ite (pure _) (he right)
  | loop initializer condition clause body _ =>
    exact loop hs he fuel initializer condition clause body
  | methodCall receiver method arguments _ =>
    exact (he receiver).andThen fun r => withValues he arguments fun args => act _
  | importFile path _ => exact (he path).andThen fun v => importValue hs v

end Statements

end Escapes

/-- Every error inside an expression leaves it. The induction is on how deep evaluation may
nest. -/
theorem escapes_expr (host : Host) (fuel level : Nat) (e : Expr) :
    Escapes host level .error (expr host fuel e) := by
  induction fuel generalizing level e with
  | zero => exact .act _
  | succ fuel ih =>
    intro m k hk f hf
    rcases List.mem_cons.mp hk with rfl | hinside
    · obtain ⟨after, hr⟩ := hf
      exact ⟨after, (expr_visiting e level m).trans hr⟩
    · have he := ih fuel
      exact Escapes.exprStep (Escapes.statement he) he fuel e m k hinside f hf

namespace Eval

/-- Every error inside a program ends it. -/
theorem escapes_program (host : Host) (fuel : Nat) (p : Program) :
    Escapes host fuel .error (program host fuel p) := by
  have he := escapes_expr host fuel fuel
  exact (Escapes.statements (Escapes.statement he) .null p).bind (fun _ => rfl) fun _ => .pure _

/-! ## Imports in a run -/

variable {m : Machine} {file : String}

/-- A file that cannot be loaded is an error with its name, and no expression is evaluated. -/
theorem importFile_of_refused {reason : Fault} (h : host.load m.imports file = .error reason)
    (eval : EvalExpr Eval) :
    importFile host eval file m = .ok (.error (.inFile file reason)) m := by
  have hload : host.load (Frame.of m).imports file = .error reason := h
  have hframe : (liftM frame : Eval Frame) m = .ok (Frame.of m) m := rfl
  unfold importFile inImport
  rw [bind_run, bind_run, hframe]
  dsimp only
  rw [hload]
  rfl

theorem restores_expr (host : Host) (fuel : Nat) (e : Expr) : Restores (expr host fuel e) :=
  restores ((framed host).expr fuel e) ((StoreInvariant.trivial host).rules.expr fuel e)

theorem expr_of_refused {fuel : Nat} {path : Expr} {between : Machine} {reason : Fault}
    (hpath : (expr host fuel path : Eval Value) m = .ok (.string file) between)
    (h : host.load m.imports file = .error reason) (position : Position) :
    (expr host (fuel + 1) (.importFile path position) : Eval Value) m =
      .ok (.error (.inFile file reason)) between := by
  have hback := congrArg Frame.imports (restores_expr host fuel path m)
  rw [hpath] at hback
  change between.imports = m.imports at hback
  rw [← hback] at h
  rw [expr_succ]
  change andThen (expr host fuel path : Eval Value) (importValue host (expr host fuel)) m = _
  rw [andThen_of_plain hpath rfl]
  exact importFile_of_refused h (expr host fuel)

theorem message_cyclicImport (file : String) :
    (Fault.inFile file .cyclicImport).message = file ++ ": cyclic import" := by
  have hparts : (Fault.inFile file .cyclicImport).message =
      file ++ ": " ++ "cyclic import" := rfl
  have htext : ": " ++ "cyclic import" = ": cyclic import" := by decide
  rw [hparts, String.append_assoc, htext]

/-- In every state of a run that starts with no import open, the open imports are different. A file
that cannot be loaded is an error with its name. A path that is open is refused whatever is in the
files and however expressions are evaluated. And an error that comes up while files are being
imported ends the run, with a message in which their names come first, from the outside to the
inside. -/
theorem errors_name_open_files (host : Host) (fuel : Nat) (p : Program) (m : Machine)
    (hm : m.imports = []) :
    (∀ k ∈ moments host fuel p m, (k.machine.imports.map Path.components).Nodup) ∧
    (∀ (state between : Machine) (file : String) (reason : Fault) (level : Nat) (path : Expr)
        (position : Position),
      (expr host level path : Eval Value) state = .ok (.string file) between →
      host.load state.imports file = .error reason →
        (expr host (level + 1) (.importFile path position) : Eval Value) state =
          .ok (.error (.inFile file reason)) between) ∧
    (∀ (state : Machine) (file : String),
      (∃ path ∈ state.imports, Path.same (host.pathOf file) path = true) →
        host.load state.imports file = .error .cyclicImport ∧
        (Fault.inFile file .cyclicImport).message = file ++ ": cyclic import" ∧
        ∀ (reader : String → Except FileError String) (eval : EvalExpr Eval),
          importFile { host with fileText := reader } eval file state =
            .ok (.error (.inFile file .cyclicImport)) state) ∧
    (visits host fuel p m).map Visit.moment =
      (moments host fuel p m).filter (·.event.isSome) ∧
    ∀ k ∈ visits host fuel p m,
      k.machine.imports = (k.files.map host.pathOf).reverse ∧
      ∀ f, k.Raises host f → ∃ raised after,
        (program host fuel p : Eval Value) m = .ok (.error raised) after ∧
        raised.message = ": ".intercalate (k.files ++ [f.message]) := by
  refine ⟨?_, ?_, ?_, moments_of_visits host fuel p m, ?_⟩
  · have hstart : m.DistinctImports := by simp [Machine.DistinctImports, hm]
    have hsound := (distinctImports host).program fuel p m hstart
    exact List.forall_mem_cons.mpr ⟨hstart, hsound.moments⟩
  · intro state between file reason level path position hpath hload
    exact expr_of_refused hpath hload position
  · intro state file hopen
    refine ⟨Host.load_of_open hopen, message_cyclicImport file, fun reader eval => ?_⟩
    have hload : Host.load { host with fileText := reader } state.imports file =
        .error .cyclicImport := Host.load_of_open hopen
    exact importFile_of_refused hload eval
  · intro k hk
    refine ⟨imports_of_visit hm hk, fun f hf => ?_⟩
    obtain ⟨after, hr⟩ := escapes_program host fuel p m k hk f hf
    rw [program_visiting] at hr
    exact ⟨_, after, hr, Fault.message_inFiles k.files f⟩

/-- A host with two files: `a.em` calls a function that imports `b.em`, and `b.em` is a name that
nothing binds. -/
def twoFiles : Host :=
  let text : String → Except FileError String
    | "./a.em" => .ok "function f() \x7b import \"b.em\" \x7d f()"
    | "./b.em" => .ok "x"
    | _ => .error .notFound
  { Host.plain with fileText := text }

/-- Whether a visit is made in the two files and evaluates a name that nothing binds. -/
def unknownInside (k : Visit) : Bool :=
  k.files == ["a.em", "b.em"] &&
    match k.event with
    | .evaluates e =>
      match (expr twoFiles (k.level + 1) e : Eval Value) k.machine with
      | .ok (.error (.unbound name)) _ => name == "x"
      | _ => false
    | _ => false

theorem raises_of_unknownInside {k : Visit} (h : unknownInside k = true) :
    k.files = ["a.em", "b.em"] ∧ k.Raises twoFiles (.unbound "x") := by
  unfold unknownInside at h
  obtain ⟨hfiles, hraises⟩ := Bool.and_eq_true_iff.mp h
  refine ⟨by simpa using hfiles, ?_⟩
  unfold Visit.Raises
  split at hraises
  · rename_i e hevent
    rw [hevent]
    split at hraises
    · rename_i name after hr
      rw [beq_iff_eq] at hraises
      exact ⟨after, hraises ▸ hr⟩
    · cases hraises
  · cases hraises

/-- An import inside a call inside an import: the error names both files. -/
theorem unknown_name_inside_files :
    let m := Machine.start twoFiles .unlimited 0
    let p : Program := [.expression (.importFile (.string "a.em" .start) .start) .start]
    m.imports = [] ∧ ∃ k ∈ visits twoFiles 15 p m, k.files = ["a.em", "b.em"] ∧
      k.Raises twoFiles (.unbound "x") ∧ ∃ raised after,
        (program twoFiles 15 p : Eval Value) m = .ok (.error raised) after ∧
        raised.message = "a.em: b.em: identifier not found: x" := by
  intro m p
  have hm : m.imports = [] := rfl
  have hany : (visits twoFiles 15 p m).any unknownInside = true := by decide +kernel
  obtain ⟨k, hk, hunknown⟩ := List.any_eq_true.mp hany
  obtain ⟨hfiles, hraises⟩ := raises_of_unknownInside hunknown
  obtain ⟨-, -, -, -, hnamed⟩ := errors_name_open_files twoFiles 15 p m hm
  obtain ⟨raised, after, hrun, hmessage⟩ := (hnamed k hk).2 _ hraises
  refine ⟨hm, k, hk, hfiles, hraises, raised, after, hrun, ?_⟩
  rw [hmessage, hfiles]
  rfl

end Eval

end ScriptLang
