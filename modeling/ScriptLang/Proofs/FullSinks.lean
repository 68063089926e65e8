-- Programs whose sink can be full. Only `puts` uses the sink, and a full sink ends the run at once.
-- So a run is the same on every sink as long as what it writes fits, and otherwise it ends with the
-- bytes that fit.
import ScriptLang.Proofs.MoreFuel
import ScriptLang.Proofs.Trace
import ScriptLang.Proofs.Layout

namespace ScriptLang

/-! ## Sinks -/

/-- A sink that takes everything, with the bytes that it has taken. -/
def Sink.boundless (written : ByteArray) : Sink := ⟨written, none, false⟩

/-- A sink that takes `n` bytes in all, with the bytes that it has taken. -/
def Sink.upTo (n : Nat) (written : ByteArray) : Sink := ⟨written, some n, false⟩

/-- What comes behind `n` bytes does not count among the first `n`. -/
theorem extract_of_le {a : ByteArray} {n : Nat} (b : ByteArray) (h : n ≤ a.size) :
    (a ++ b).extract 0 n = a.extract 0 n := by
  simp [ByteArray.extract_append, h]

theorem extract_of_ge {a : ByteArray} {n : Nat} (b : ByteArray) (h : a.size ≤ n) :
    (a ++ b).extract 0 n = a ++ b.extract 0 (n - a.size) := by
  have hall : a.extract 0 n = a := by
    rw [← Nat.max_eq_left h]
    exact ByteArray.extract_zero_max_size
  rw [ByteArray.extract_append, hall, Nat.zero_sub]

namespace Sink

variable {n : Nat} {before : ByteArray} {text : String}

theorem write_upTo_of_fits (h : (before ++ text.toUTF8).size ≤ n) :
    write text (upTo n before) = .ok () (upTo n (before ++ text.toUTF8)) := by
  rw [ByteArray.size_append] at h
  simp only [write, upTo]
  exact if_pos h

/-- A sink that is full in the middle of a text has the first `n` bytes. -/
theorem write_upTo_of_full (hroom : before.size ≤ n) (h : n < (before ++ text.toUTF8).size) :
    write text (upTo n before) = .error .full (upTo n ((before ++ text.toUTF8).extract 0 n)) := by
  rw [ByteArray.size_append] at h
  rw [extract_of_ge _ hroom]
  simp only [write, upTo]
  exact if_neg (Nat.not_le_of_lt h)

end Sink

/-- The state with another sink. -/
def Machine.onto (m : Machine) (sink : Sink) : Machine := { m with sink }

namespace Eval

variable {host : Host} {α β : Type} {n : Nat} {before : ByteArray}

/-- A result with its state on another sink. -/
def leftOn (sink : Sink) : EStateM.Result Stop Machine α → EStateM.Result Stop Machine α
  | .ok a m => .ok a (m.onto sink)
  | .error stop m => .error stop (m.onto sink)

theorem Bracket.enter_onto (b : Bracket) (m : Machine) (sink : Sink) :
    b.enter (m.onto sink) = (b.enter m).onto sink := by
  cases b <;> rfl

theorem closed_leftOn (b : Bracket) (m : Machine) (sink other : Sink)
    (r : EStateM.Result Stop Machine α) :
    closed b (m.onto other) (leftOn sink r) = leftOn sink (closed b m r) := by
  cases r <;> cases b <;> rfl

/-! ## Steps that do not use the sink -/

/-- A step that does the same on every sink, and leaves the sink alone. A quiet step may write, so
that it need not be silent. -/
def Silent (step : Eval α) : Prop := ∀ m sink, step (m.onto sink) = leftOn sink (step m)

namespace Silent

theorem pure (a : α) : Silent (pure a : Eval α) := fun _ _ => rfl

theorem bind {step : Eval α} {next : α → Eval β} (h : Silent step) (hn : ∀ a, Silent (next a)) :
    Silent (step >>= next) := by
  intro m sink
  rw [bind_run, bind_run, h m sink]
  cases step m with
  | ok a between => exact hn a between sink
  | error stop between => rfl

theorem heap : Silent heap := fun _ _ => rfl

theorem onHeap (op : HeapOp Value) : Silent (onHeap op) := fun _ _ => rfl

theorem onDefinitions (f : Definitions → α × Definitions) : Silent (onDefinitions f) :=
  fun _ _ => rfl

theorem lookup? (name : String) : Silent (lookup? name) := fun _ _ => rfl

theorem define (name : String) (value : Value) : Silent (define name value) := fun _ _ => rfl

theorem assign (name : String) (value : Value) : Silent (assign name value) := by
  rintro ⟨⟨heap, scopes, definitions⟩, scope, depth, imports, sink, inputs⟩ other
  simp only [Machine.onto, Eval.assign]
  split <;> rfl

theorem render (value : Value) : Silent (render value) := fun _ _ => rfl

theorem draw (f : Inputs → α × Inputs) : Silent (draw f) := fun _ _ => rfl

theorem fail (reason : Fatal) : Silent (fail reason : Eval α) := fun _ _ => rfl

theorem exhausted : Silent (exhausted : Eval α) := fun _ _ => rfl

theorem fault (f : Fault) : Silent (fault f : Eval Value) := pure _

theorem lookup (name : String) : Silent (lookup name) := by
  refine .bind (.lookup? name) fun o => ?_
  cases o with
  | some v => exact .pure v
  | none =>
    dsimp only
    cases Builtin.ofName? name with
    | some b => exact .pure _
    | none => exact .fault _

theorem scopeAccess (name branch : String) : Silent (scopeAccess name branch) := by
  refine .bind (.lookup name) fun v => ?_
  cases v with
  | enum id =>
    refine .bind (.onDefinitions _) fun o => ?_
    cases o with
    | none => exact .fault _
    | some type =>
      dsimp only
      cases type.branches.lookup branch with
      | none => exact .fault _
      | some w => exact .pure w
  | _ => exact .fault _

theorem readElement (container key : Value) : Silent (readElement container key) :=
  .bind .heap fun _ => .pure _

theorem step (op : StepOp) (name : String) : Silent (step op name) := by
  refine .bind (.lookup? name) fun o => ?_
  cases o with
  | none => exact .fault _
  | some current =>
    dsimp only
    split
    · exact .pure _
    · exact .bind (.assign name _) fun _ => .pure _

theorem makeFunction (literal : FunctionLiteral) : Silent (makeFunction literal) := by
  refine .bind (fun _ _ => rfl) fun scope => .bind (.onDefinitions _) fun id => ?_
  cases literal.name with
  | none => exact .pure _
  | some name => exact .bind (.define name _) fun _ => .pure _

theorem bindEnum (name : String) (branches : List (String × Value)) :
    Silent (bindEnum name branches) :=
  .bind (.onDefinitions _) fun _ => .define name _

theorem lengthOf (value : Value) : Silent (lengthOf value) := by
  cases value with
  | array id | hash id => exact .bind .heap fun _ => .pure _
  | string s => exact .pure _
  | _ => exact .fault _

theorem firstOf (value : Value) : Silent (firstOf value) := by
  cases value with
  | array id => exact .bind .heap fun _ => .onHeap _
  | _ => exact .fault _

theorem lastOf (value : Value) : Silent (lastOf value) := by
  cases value with
  | array id => exact .bind .heap fun _ => .onHeap _
  | _ => exact .fault _

theorem restOf (value : Value) : Silent (restOf value) := by
  cases value with
  | array id =>
    refine .bind .heap fun h => ?_
    cases (h.array id).toList with
    | nil => exact .pure _
    | cons first tail => exact .onHeap _
  | _ => exact .fault _

theorem pushOnto (value item : Value) : Silent (pushOnto value item) := by
  cases value with
  | array id => exact .bind .heap fun _ => .onHeap _
  | _ => exact .fault _

theorem time (host : Host) : Silent (time host) := .bind (.draw _) fun _ => .pure _

theorem random (host : Host) (args : List Value) : Silent (random host args) := by
  unfold Eval.random
  split
  · exact .bind (.draw _) fun _ => .pure _
  · split
    · exact .bind (.draw _) fun _ => .pure _
    · exact .fault _
  · exact .fault _

theorem exitWith (args : List Value) : Silent (exitWith args) := by
  unfold Eval.exitWith
  split
  · exact .fail _
  · split
    · exact .fail _
    · exact .fault _
  · exact .fault _

theorem findPlugin (host : Host) (value : Value) : Silent (findPlugin host value) := by
  unfold Eval.findPlugin
  split
  · split
    · exact .pure _
    · exact .fault _
  · exact .fault _

/-- No builtin function but `puts` uses the sink. -/
theorem runBuiltin {b : Builtin} (h : b ≠ .puts) (args : List Value) :
    Silent (runBuiltin host b args) := by
  cases b with
  | len => exact .lengthOf _
  | first => exact .firstOf _
  | last => exact .lastOf _
  | rest => exact .restOf _
  | push => exact .pushOnto _ _
  | puts => exact absurd rfl h
  | time => exact .time host
  | type => exact .pure _
  | rand => exact .random host args
  | args => exact .onHeap _
  | exit => exact .exitWith args
  | plugin => exact .findPlugin host _

end Silent

/-! ## Runs on a sink that can be full -/

/-- The results of a run on a sink that takes everything and of the run on a sink that takes `n`
bytes, where both have taken the same bytes before. What is written fits, and then nothing differs
but the sink, or it does not fit and the second run ends with the bytes that do. -/
inductive Truncated (n : Nat) (before : ByteArray) :
    EStateM.Result Stop Machine α → EStateM.Result Stop Machine α → Prop where
  | fits (r : EStateM.Result Stop Machine α) (more : ByteArray) (h : (before ++ more).size ≤ n) :
      Truncated n before (leftOn (.boundless (before ++ more)) r)
        (leftOn (.upTo n (before ++ more)) r)
  | full (r : EStateM.Result Stop Machine α) (m : Machine) (more : ByteArray)
      (h : n < (before ++ more).size) :
      Truncated n before (leftOn (.boundless (before ++ more)) r)
        (.error (.fatal (.output .full)) (m.onto (.upTo n ((before ++ more).extract 0 n))))

namespace Truncated

variable {r r' : EStateM.Result Stop Machine α}

theorem of_silent (r : EStateM.Result Stop Machine α) (h : before.size ≤ n) :
    Truncated n before (leftOn (.boundless before) r) (leftOn (.upTo n before) r) := by
  have hfits : Truncated n before (leftOn (.boundless (before ++ .empty)) r)
      (leftOn (.upTo n (before ++ .empty)) r) := .fits r .empty (by rwa [ByteArray.append_empty])
  rwa [ByteArray.append_empty] at hfits

/-- What is written later is written behind what was written earlier. -/
theorem earlier {more : ByteArray} (h : Truncated n (before ++ more) r r') :
    Truncated n before r r' := by
  cases h with
  | fits r last hfits =>
    rw [ByteArray.append_assoc] at hfits ⊢
    exact .fits r _ hfits
  | full r m last hfull =>
    rw [ByteArray.append_assoc] at hfull ⊢
    exact .full r m _ hfull

theorem closed (b : Bracket) (m : Machine) (sink sink' : Sink) (h : Truncated n before r r') :
    Truncated n before (closed b (m.onto sink) r) (Eval.closed b (m.onto sink') r') := by
  cases h with
  | fits r more hfits =>
    rw [closed_leftOn, closed_leftOn]
    exact .fits _ more hfits
  | full r last more hfull =>
    rw [closed_leftOn]
    have hstop : Eval.closed b (m.onto sink')
        (.error (.fatal (.output .full)) (last.onto (.upTo n ((before ++ more).extract 0 n)))) =
        (.error (.fatal (.output .full))
          ((b.leave m last).onto (.upTo n ((before ++ more).extract 0 n))) :
          EStateM.Result Stop Machine α) :=
      closed_leftOn b m _ sink' (.error _ last)
    rw [hstop]
    exact .full _ (b.leave m last) more hfull

end Truncated

/-- What holds of the results of `x`, and that a sink that can be full truncates what `x` writes
when `y` runs on it. -/
structure Truncates (x y : Eval α) (P : α → Prop) : Prop where
  result : ∀ m a after, x m = .ok a after → P a
  truncated : ∀ (n : Nat) (m : Machine) (before : ByteArray), before.size ≤ n →
    Truncated n before (x (m.onto (.boundless before))) (y (m.onto (.upTo n before)))

namespace Truncates

variable {x y : Eval α} {f g : α → Eval β} {P : α → Prop} {Q : β → Prop}

theorem of_silent {step : Eval α} (h : Silent step) (hP : ∀ m a after, step m = .ok a after → P a) :
    Truncates step step P where
  result := hP
  truncated n m before hroom := by
    rw [h, h]
    exact .of_silent (step m) hroom

/-- On a sink that takes everything, a run only adds to what is written. -/
theorem appends (h : Truncates x y P) (m : Machine) (before : ByteArray) :
    ∃ r more, x (m.onto (.boundless before)) = leftOn (.boundless (before ++ more)) r := by
  have htruncated := h.truncated before.size m before (Nat.le_refl _)
  generalize x (m.onto (.boundless before)) = r at htruncated
  generalize y (m.onto (.upTo before.size before)) = r' at htruncated
  cases htruncated with
  | fits r more hfits => exact ⟨r, more, rfl⟩
  | full r last more hfull => exact ⟨r, more, rfl⟩

theorem bind (hx : Truncates x y P) (hf : ∀ a, P a → Truncates (f a) (g a) Q) :
    Truncates (x >>= f) (y >>= g) Q where
  result m b after hb := by
    obtain ⟨a, between, ha, hb⟩ := bind_eq_ok_iff.mp hb
    exact (hf a (hx.result m a between ha)).result between b after hb
  truncated n m before hroom := by
    have hfirst := hx.truncated n m before hroom
    have hresult := hx.result (m.onto (.boundless before))
    rw [bind_run, bind_run]
    generalize x (m.onto (.boundless before)) = r at hfirst hresult ⊢
    generalize y (m.onto (.upTo n before)) = r' at hfirst ⊢
    cases hfirst with
    | fits r more hfits =>
      cases r with
      | error stop between => exact .fits (.error stop between) more hfits
      | ok a between =>
        have hrest := hf a (hresult a _ rfl)
        exact (hrest.truncated n between (before ++ more) hfits).earlier
    | full r last more hfull =>
      cases r with
      | error stop between => exact .full (.error stop between) last more hfull
      | ok a between =>
        -- The first run goes on, and what it writes from here on is cut off.
        obtain ⟨r, later, hrest⟩ := (hf a (hresult a _ rfl)).appends between (before ++ more)
        have hcut := extract_of_le later (Nat.le_of_lt hfull)
        rw [ByteArray.append_assoc] at hcut hrest
        have hsize : n < (before ++ (more ++ later)).size := by
          rw [← ByteArray.append_assoc, ByteArray.size_append]
          omega
        change Truncated n before (f a (between.onto (.boundless (before ++ more)))) _
        rw [hrest, ← hcut]
        exact .full r last (more ++ later) hsize

theorem within (h : Truncates x y P) (b : Bracket) : Truncates (within b x) (within b y) P where
  result m a after ha := by
    rw [within_eq] at ha
    obtain ⟨last, hlast⟩ := ok_of_closed ha
    exact h.result _ a last hlast
  truncated n m before hroom := by
    rw [within_eq, within_eq, b.enter_onto, b.enter_onto]
    exact (h.truncated n (b.enter m) before hroom).closed b m _ _

end Truncates

/-! ## Output -/

theorem onSink_onto (op : EStateM SinkError Sink Unit) (m : Machine) (sink : Sink) :
    onSink op (m.onto sink) = match op sink with
      | .ok _ sink => .ok () (m.onto sink)
      | .error reason sink => .error (.fatal (.output reason)) (m.onto sink) := by
  cases h : op sink with
  | ok a after => simp only [onSink, Machine.onto, h]
  | error reason after => simp only [onSink, Machine.onto, h]

theorem truncates_write (text : String) :
    Truncates (onSink (Sink.write text)) (onSink (Sink.write text)) fun _ => True where
  result _ _ _ _ := trivial
  truncated n m before hroom := by
    rw [onSink_onto, onSink_onto]
    by_cases hfits : (before ++ text.toUTF8).size ≤ n
    · rw [Sink.write_upTo_of_fits hfits]
      exact .fits (.ok () m) _ hfits
    · have hfull := Nat.lt_of_not_le hfits
      rw [Sink.write_upTo_of_full hroom hfull]
      exact .full (.ok () m) m _ hfull

theorem truncates_flush : Truncates (onSink Sink.flush) (onSink Sink.flush) fun _ => True where
  result _ _ _ _ := trivial
  truncated _ m _ hroom := .of_silent (.ok () m) hroom

theorem truncates_putLines (values : List Value) :
    Truncates (putLines values) (putLines values) fun _ => True := by
  induction values with
  | nil => exact .of_silent (.pure ()) fun _ _ _ _ => trivial
  | cons value rest ih =>
    refine .bind (.of_silent (.render value) fun _ _ _ _ => trivial) fun _ _ => ?_
    exact .bind (truncates_write _) fun _ _ => ih

theorem truncates_applyBuiltin (b : Builtin) (args : List Value) :
    Truncates (applyBuiltin host b args) (applyBuiltin host b args) fun _ => True := by
  unfold applyBuiltin
  split
  · by_cases hb : b = .puts
    · rw [hb]
      refine .bind (truncates_putLines args) fun _ _ => .bind truncates_flush fun _ _ => ?_
      exact .of_silent (.pure _) fun _ _ _ _ => trivial
    · exact .of_silent (.runBuiltin hb args) fun _ _ _ _ => trivial
  · exact .of_silent (.fault _) fun _ _ _ _ => trivial

/-- A full sink truncates what every step of an evaluation writes. -/
theorem truncates_taken {step : Eval α} {P : α → Prop}
    (h : Taken host (fun _ => True) (fun _ => True) step P) : Truncates step step P := by
  have hresult : ∀ m a after, step m = .ok a after → P a := fun _ _ _ hr => h.result_of_true hr
  cases h with
  | applyBuiltin b => exact truncates_applyBuiltin b _
  | exhausted => exact .of_silent .exhausted hresult
  | heap => exact .of_silent .heap hresult
  | lookup? name => exact .of_silent (.lookup? name) hresult
  | closure? id => exact .of_silent (.onDefinitions _) hresult
  | lookup name => exact .of_silent (.lookup name) hresult
  | scopeAccess name branch => exact .of_silent (.scopeAccess name branch) hresult
  | readElement container key => exact .of_silent (.readElement container key) hresult
  | step op name => exact .of_silent (.step op name) hresult
  | makeFunction literal => exact .of_silent (.makeFunction literal) hresult
  | eraseElement | writeElement | newArray | newHash => exact .of_silent (.onHeap _) hresult
  | define name => exact .of_silent (.define name _) hresult
  | assign name => exact .of_silent (.assign name _) hresult
  | bindEnum name => exact .of_silent (.bindEnum name _) hresult
  | callMethod method => exact .of_silent (fun _ _ => rfl) hresult

end Eval

open Eval

/-- Evaluations on a sink that takes everything and on one that can be full. -/
def truncating (host : Host) : Rules host Eval Eval :=
  BracketRules.rules
    { Kept := fun _ => True
      Given := fun _ => True
      Flows := fun _ => True
      Rel := Truncates
      kept_of_plain := fun _ => trivial
      given_of_kept := fun _ => trivial
      given_error := fun _ => trivial
      given_settled := fun _ => trivial
      flows_of_given := fun _ => trivial
      flows_breaking := trivial
      flows_returning := fun _ => trivial
      mono := fun h hpq => ⟨fun m a after hr => hpq a (h.result m a after hr), h.truncated⟩
      pure := fun ha => .of_silent (.pure _) <| by
        rintro m _ _ ⟨⟩
        exact ha
      bind := .bind
      act := truncates_taken
      evaluates := fun _ => .of_silent (.pure ()) fun _ _ _ _ => trivial
      executes := fun _ => .of_silent (.pure ()) fun _ _ _ _ => trivial
      nested := fun level _ _ _ h => by
        rw [nested_run, nested_run]
        exact h
      calls := fun _ _ => .of_silent (.pure ()) fun _ _ _ _ => trivial
      frame := .of_silent (fun _ _ => rfl) fun _ _ _ _ => trivial
      newScope := fun _ => .of_silent (fun _ _ => rfl) fun _ _ _ _ => trivial
      overflow := fun _ => .of_silent (.fail _) nofun
      inBracket := fun b _ _ _ h => h.within b
      inFile := fun _ _ _ _ h => h }

/-! ## Whole programs -/

/-- More fuel keeps a program that came to an end. -/
theorem Eval.grows_program (host : Host) (p : Program) :
    Grows fun fuel => (program host fuel p : Eval Value) := by
  intro fuel fuel' m hle
  let R := outlasting host
  have hall : Outlasts (statements (expr host fuel) .null p) (statements (expr host fuel') .null p)
      fun _ => True := R.statements (outlasts_expr hle) trivial p
  exact (hall.bind (Q := fun _ => True) fun _ _ => .pure trivial).same m

namespace Session

/-- The session with its output on another sink. -/
def onto (session : Session) (sink : Sink) : Session :=
  { session with machine := session.machine.onto sink }

/-- The program with the given source text ends with a result and leaves a session behind, given
enough fuel. -/
def ComesTo (session : Session) (source : String) (result : Except Failure Value)
    (after : Session) : Prop :=
  result ≠ .error .outOfFuel ∧
    ∃ enough, ∀ fuel, enough ≤ fuel → session.run fuel source = (result, after)

/-- What a session makes of the result of an evaluation. -/
def outcome (host : Host) :
    EStateM.Result Stop Machine Value → Except Failure Value × Session
  | .ok value m => (.ok value, ⟨host, m⟩)
  | .error (.fatal reason) m => (.error (.fatal reason), ⟨host, m⟩)
  | .error .outOfFuel m => (.error .outOfFuel, ⟨host, m⟩)

theorem runProgram_eq (session : Session) (fuel : Nat) (p : Program) :
    session.runProgram fuel p =
      outcome session.host ((program session.host fuel p : Eval Value) session.machine) := by
  obtain ⟨host, m⟩ := session
  simp only [runProgram]
  cases (program host fuel p : Eval Value) m with
  | ok value m => rfl
  | error stop m => cases stop <;> rfl

theorem runProgram_onto (session : Session) (sink : Sink) (fuel : Nat) (p : Program) :
    (session.onto sink).runProgram fuel p = outcome session.host
      ((program session.host fuel p : Eval Value) (session.machine.onto sink)) :=
  runProgram_eq _ fuel p

theorem outcome_leftOn (host : Host) (sink : Sink) (r : EStateM.Result Stop Machine Value) :
    outcome host (leftOn sink r) = ((outcome host r).1, (outcome host r).2.onto sink) := by
  cases r with
  | ok value m => rfl
  | error stop m => cases stop <;> rfl

theorem ends_of_outcome {host : Host} {r : EStateM.Result Stop Machine Value}
    (h : (outcome host r).1 ≠ .error .outOfFuel) : Ends r := by
  rintro m rfl
  exact h rfl

variable {session after : Session} {source : String} {result : Except Failure Value} {fuel : Nat}

theorem run_of_malformed (h : (parseProgram source).errors ≠ []) (fuel : Nat) (session : Session) :
    session.run fuel source = (.error (.malformed (parseProgram source).errors), session) := by
  unfold run
  dsimp only
  rw [if_neg (by simpa using h)]

/-- A run that ends with some fuel ends in the same way with more. -/
theorem ComesTo.of_run (h : session.run fuel source = (result, after))
    (hends : result ≠ .error .outOfFuel) : session.ComesTo source result after := by
  refine ⟨hends, fuel, fun more hle => ?_⟩
  rw [← h]
  by_cases hread : (parseProgram source).errors = []
  · rw [run_of_read hread, runProgram_eq] at h ⊢
    rw [run_of_read hread, runProgram_eq]
    have hstops : Ends ((program session.host fuel (parseProgram source).program : Eval Value)
        session.machine) := by
      apply ends_of_outcome
      rwa [h]
    exact congrArg _ (grows_program session.host _ fuel more session.machine hle hstops)
  · rw [run_of_malformed hread, run_of_malformed hread]

/-- A run on a sink that takes everything, and the run on a sink that can be full. -/
theorem run_truncated {n : Nat} {before : ByteArray} (hroom : before.size ≤ n)
    (h : (session.onto (.boundless before)).run fuel source = (result, after)) :
    ∃ more, after.machine.sink = .boundless (before ++ more) ∧
      ((before ++ more).size ≤ n →
        (session.onto (.upTo n before)).run fuel source =
          (result, after.onto (.upTo n (before ++ more)))) ∧
      (n < (before ++ more).size → ∃ stopped,
        (session.onto (.upTo n before)).run fuel source =
          (.error (.fatal (.output .full)), stopped) ∧
        stopped.machine.sink = .upTo n ((before ++ more).extract 0 n)) := by
  by_cases hread : (parseProgram source).errors = []
  · have htruncated := ((truncating session.host).program fuel
      (parseProgram source).program).truncated n session.machine before hroom
    rw [run_of_read hread, runProgram_onto] at h ⊢
    generalize (program session.host fuel (parseProgram source).program : Eval Value)
      (session.machine.onto (.boundless before)) = r at h htruncated
    generalize (program session.host fuel (parseProgram source).program : Eval Value)
      (session.machine.onto (.upTo n before)) = r' at htruncated ⊢
    cases htruncated with
    | fits r more hfits =>
      rw [outcome_leftOn] at h
      obtain ⟨rfl, rfl⟩ := Prod.mk.inj h
      refine ⟨more, rfl, fun _ => outcome_leftOn _ _ r, fun hfull => ?_⟩
      exact absurd hfits (Nat.not_le_of_lt hfull)
    | full r last more hfull =>
      rw [outcome_leftOn] at h
      obtain ⟨rfl, rfl⟩ := Prod.mk.inj h
      exact ⟨more, rfl, fun hfits => absurd hfits (Nat.not_le_of_lt hfull), fun _ => ⟨_, rfl, rfl⟩⟩
  · rw [run_of_malformed hread] at h ⊢
    obtain ⟨rfl, rfl⟩ := Prod.mk.inj h
    refine ⟨.empty, ?_, fun _ => ?_, fun hfull => ?_⟩
    · rw [ByteArray.append_empty]
      rfl
    · rw [ByteArray.append_empty]
      rfl
    · rw [ByteArray.append_empty] at hfull
      omega

end Session

/-- A full sink only truncates. A program that comes to an end on a sink that takes everything comes
to the same end, with the same output, on a sink that takes at least as many bytes as it writes. On
a sink that takes `n` bytes only, it comes to the failure of the sink, with the first `n` bytes. -/
theorem full_sink_truncates {session after : Session} {source : String}
    {result : Except Failure Value}
    (h : (session.onto .unlimited).ComesTo source result after) (n : Nat) :
    ∃ output, after.machine.sink = .boundless output ∧
      (output.size ≤ n →
        (session.onto (.upTo n .empty)).ComesTo source result (after.onto (.upTo n output))) ∧
      (n < output.size → ∃ stopped,
        (session.onto (.upTo n .empty)).ComesTo source (.error (.fatal (.output .full))) stopped ∧
        stopped.machine.sink = .upTo n (output.extract 0 n)) := by
  obtain ⟨hends, fuel, hruns⟩ := h
  have hrun : (session.onto (.boundless .empty)).run fuel source = (result, after) :=
    hruns fuel (Nat.le_refl fuel)
  have hroom : ByteArray.empty.size ≤ n := Nat.zero_le n
  obtain ⟨output, hsink, hfits, hfull⟩ := Session.run_truncated hroom hrun
  rw [ByteArray.empty_append] at hsink hfits hfull
  refine ⟨output, hsink, fun hsize => .of_run (hfits hsize) hends, fun hsize => ?_⟩
  obtain ⟨stopped, hstopped, hwritten⟩ := hfull hsize
  exact ⟨stopped, .of_run hstopped nofun, hwritten⟩

/-- The second line of a call is cut in two. -/
theorem line_cut_in_two :
    let session := Session.start Host.plain .unlimited 0
    ∃ after, (session.onto .unlimited).ComesTo "puts(1, 234)" (.ok .null) after ∧
      after.machine.sink = .boundless "1\n234\n".toUTF8 ∧
      ∃ stopped, (session.onto (.upTo 4 .empty)).ComesTo "puts(1, 234)"
          (.error (.fatal (.output .full))) stopped ∧
        stopped.machine.sink = .upTo 4 "1\n23".toUTF8 := by
  intro session
  have hread : (parseProgram "puts(1, 234)").errors = [] := by cbv
  let p : Program :=
    [.expression (.call (.identifier "puts" ⟨1, 1⟩)
      [.integer 1 ⟨1, 6⟩, .integer 234 ⟨1, 9⟩] ⟨1, 5⟩) ⟨1, 1⟩]
  have hprogram : (parseProgram "puts(1, 234)").program = p := by cbv
  have hrun : session.run 3 "puts(1, 234)" = (.ok .null, (session.runProgram 3 p).2) := by
    rw [Session.run_of_read hread, hprogram]
    rfl
  have hcomes : (session.onto .unlimited).ComesTo "puts(1, 234)" (.ok .null) _ :=
    .of_run hrun (by simp)
  have hsink : (session.runProgram 3 p).2.machine.sink = .boundless "1\n234\n".toUTF8 := by
    rfl
  obtain ⟨output, houtput, -, hfull⟩ := full_sink_truncates hcomes 4
  obtain rfl : output = "1\n234\n".toUTF8 := by
    rw [hsink] at houtput
    exact (congrArg Sink.written houtput).symm
  have hcut : "1\n234\n".toUTF8.extract 0 4 = "1\n23".toUTF8 := by decide
  rw [← hcut]
  exact ⟨_, hcomes, hsink, hfull (by decide)⟩

end ScriptLang
