-- Where a break goes. One in the body of a loop ends that loop and no other. One in the heading, in
-- the first clause, the condition or the last clause, is not taken there: it is the result of the
-- loop, and ends the loop around it.
import Mathlib.Logic.Relation
import ScriptLang.Proofs.Frames

namespace ScriptLang

/-- The signals are the errors, the returns and the break. -/
theorem Value.isSignal_iff {v : Value} : v.isSignal = true ↔
    v = .breaking ∨ (∃ f, v = .error f) ∨ ∃ w, v = .returning w := by
  cases v <;> simp [isSignal]

namespace Eval

/-! ## The course of a loop -/

section Course

variable (eval : EvalExpr Eval)

/-- The condition of a loop lets it go on. -/
def GoesOn (condition : Option Expr) (m after : Machine) : Prop :=
  match condition with
  | none => after = m
  | some e => ∃ v, eval e m = .ok v after ∧ v.isSignal = false ∧ v.isTruthy = true

/-- A clause of a loop runs, if it is there, and gives no signal. -/
def RunsThrough (clause : Option (Eval Value)) (m after : Machine) : Prop :=
  match clause with
  | none => after = m
  | some step => ∃ v, step m = .ok v after ∧ v.isSignal = false

/-- A whole pass of a loop: the condition lets it go on, and neither the body nor the last clause
gives a signal. The value of a pass is that of the body. -/
def WholePass (condition clause : Option Expr) (body : Block) (before after : Value × Machine) :
    Prop :=
  ∃ tested done, GoesOn eval condition before.2 tested ∧
    block eval body tested = .ok after.1 done ∧ after.1.isSignal = false ∧
    RunsThrough (clause.map eval) done after.2

/-- A loop goes through its first clause and then through whole passes. The last of them gave the
value that it reaches, which is `null` if there was none. -/
def Reaches (initializer : Option Statement) (condition clause : Option Expr) (body : Block)
    (m : Machine) (reached : Value × Machine) : Prop :=
  ∃ started, RunsThrough (initializer.map (statement eval)) m started ∧
    Relation.ReflTransGen (WholePass eval condition clause body) (.null, started) reached

/-- How a loop ends in its next pass. The result is the value of the last whole pass if the
condition fails, `null` if the body breaks, and else a signal. -/
inductive EndsIn (condition clause : Option Expr) (body : Block) (reached : Value × Machine) :
    Value → Machine → Prop where
  | fails {e : Expr} {v : Value} {after : Machine} (hc : condition = some e)
      (hv : eval e reached.2 = .ok v after) (hs : v.isSignal = false) (ht : v.isTruthy = false) :
      EndsIn condition clause body reached reached.1 after
  | testSignals {e : Expr} {signal : Value} {after : Machine} (hc : condition = some e)
      (hv : eval e reached.2 = .ok signal after) (hs : signal.isSignal = true) :
      EndsIn condition clause body reached signal after
  | bodyBreaks {tested after : Machine} (hc : GoesOn eval condition reached.2 tested)
      (hb : block eval body tested = .ok .breaking after) :
      EndsIn condition clause body reached .null after
  | bodySignals {signal : Value} {tested after : Machine}
      (hc : GoesOn eval condition reached.2 tested) (hb : block eval body tested = .ok signal after)
      (hs : signal.isSignal = true) (hn : signal ≠ .breaking) :
      EndsIn condition clause body reached signal after
  | updateSignals {e : Expr} {v signal : Value} {tested done after : Machine}
      (hc : GoesOn eval condition reached.2 tested) (hb : block eval body tested = .ok v done)
      (hv : v.isSignal = false) (hu : clause = some e) (he : eval e done = .ok signal after)
      (hs : signal.isSignal = true) : EndsIn condition clause body reached signal after

/-- A loop comes to a break in its heading. -/
inductive HeadingBreaks (initializer : Option Statement) (condition clause : Option Expr)
    (body : Block) (m after : Machine) : Prop where
  | initializer {s : Statement} (hi : initializer = some s)
      (hb : statement eval s m = .ok .breaking after)
  | condition {e : Expr} {reached : Value × Machine}
      (hr : Reaches eval initializer condition clause body m reached) (hc : condition = some e)
      (hb : eval e reached.2 = .ok .breaking after)
  | clause {e : Expr} {reached : Value × Machine} {v : Value} {tested done : Machine}
      (hr : Reaches eval initializer condition clause body m reached)
      (hc : GoesOn eval condition reached.2 tested) (hv : block eval body tested = .ok v done)
      (hs : v.isSignal = false) (hu : clause = some e) (hb : eval e done = .ok .breaking after)

end Course

/-! ## The clauses -/

theorem pure_eq_ok_iff {α : Type} {a b : α} {m after : Machine} :
    (pure a : Eval α) m = .ok b after ↔ b = a ∧ after = m := by
  change EStateM.Result.ok a m = .ok b after ↔ _
  simp [eq_comm]

variable {eval : EvalExpr Eval} {initializer : Option Statement} {condition clause : Option Expr}
  {body : Block} {m after : Machine} {out last : Value}

theorem signalOf_eq_ok_iff {step : Eval Value} {o : Option Value} :
    signalOf step m = .ok o after ↔ ∃ v, step m = .ok v after ∧
      o = if v.isSignal then some v else none := by
  unfold signalOf
  simp only [bind_eq_ok_iff]
  constructor
  · rintro ⟨v, between, hv, h⟩
    cases hs : v.isSignal <;> simp [hs, pure_eq_ok_iff] at h <;>
      exact ⟨v, h.2 ▸ hv, by simp [h.1, hs]⟩
  · rintro ⟨v, hv, rfl⟩
    refine ⟨v, after, hv, ?_⟩
    cases v.isSignal <;> rfl

theorem runsThrough_iff {step : Eval Value} :
    RunsThrough (some step) m after ↔ signalOf step m = .ok none after := by
  simp only [RunsThrough, signalOf_eq_ok_iff]
  grind

theorem signalOf_eq_some_iff {step : Eval Value} {signal : Value} :
    signalOf step m = .ok (some signal) after ↔
      step m = .ok signal after ∧ signal.isSignal = true := by
  simp only [signalOf_eq_ok_iff]
  grind

theorem start_eq_none_iff : start eval initializer m = .ok none after ↔
    RunsThrough (initializer.map (statement eval)) m after := by
  cases initializer with
  | none => simp [start, RunsThrough, pure_eq_ok_iff]
  | some s => exact runsThrough_iff.symm

theorem update_eq_none_iff : update eval clause m = .ok none after ↔
    RunsThrough (clause.map eval) m after := by
  cases clause with
  | none => simp [update, RunsThrough, pure_eq_ok_iff]
  | some e => exact runsThrough_iff.symm

theorem start_eq_some_iff {signal : Value} : start eval initializer m = .ok (some signal) after ↔
    ∃ s, initializer = some s ∧ statement eval s m = .ok signal after ∧
      signal.isSignal = true := by
  cases initializer with
  | none => simp [start, pure_eq_ok_iff]
  | some s => simp [start, signalOf_eq_some_iff]

theorem update_eq_some_iff {signal : Value} : update eval clause m = .ok (some signal) after ↔
    ∃ e, clause = some e ∧ eval e m = .ok signal after ∧ signal.isSignal = true := by
  cases clause with
  | none => simp [update, pure_eq_ok_iff]
  | some e => simp [update, signalOf_eq_some_iff]

/-- What testing the condition comes to. -/
theorem endsBefore_eq_ok_iff {o : Option Value} :
    endsBefore eval condition last m = .ok o after ↔
      o = none ∧ GoesOn eval condition m after ∨
      ∃ e v, condition = some e ∧ eval e m = .ok v after ∧
        (v.isSignal = true ∧ o = some v ∨
          v.isSignal = false ∧ v.isTruthy = false ∧ o = some last) := by
  cases condition with
  | none =>
    simp [endsBefore, GoesOn, pure_eq_ok_iff]
  | some e =>
    simp only [endsBefore, GoesOn, bind_eq_ok_iff]
    constructor
    · rintro ⟨v, between, hv, h⟩
      cases hs : v.isSignal <;> cases ht : v.isTruthy <;>
        simp only [hs, ht, Bool.false_eq_true, if_true, if_false, pure_eq_ok_iff] at h <;> grind
    · rintro (⟨rfl, v, hv, hs, ht⟩ | ⟨e, v, ⟨⟩, hv, ⟨hs, rfl⟩ | ⟨hs, ht, rfl⟩⟩)
      · refine ⟨v, after, hv, ?_⟩
        simp [hs, ht, pure_eq_ok_iff]
      · refine ⟨v, after, hv, ?_⟩
        simp [hs, pure_eq_ok_iff]
      · refine ⟨v, after, hv, ?_⟩
        simp [hs, ht, pure_eq_ok_iff]

/-! ## Passes -/

/-- What a loop does behind its body. -/
def behindBody (eval : EvalExpr Eval) (condition clause : Option Expr) (body : Block)
    (bound : Nat) (value : Value) : Eval Value := do
  match value with
  | .breaking => return .null
  | _ =>
    if value.isSignal then return value
    else
      match ← update eval clause with
      | some signal => return signal
      | none => passes eval condition clause body bound value

theorem passes_of_goesOn {tested : Machine} (h : GoesOn eval condition m tested) (bound : Nat)
    (last : Value) : passes eval condition clause body (bound + 1) last m =
      (block eval body >>= behindBody eval condition clause body bound) tested := by
  have ht : endsBefore eval condition last m = .ok none tested :=
    endsBefore_eq_ok_iff.mpr (.inl ⟨rfl, h⟩)
  unfold passes
  rw [bind_run, ht]
  rfl

theorem passes_of_ended (h : endsBefore eval condition last m = .ok (some out) after)
    (bound : Nat) : passes eval condition clause body (bound + 1) last m = .ok out after := by
  unfold passes
  rw [bind_run, h]
  rfl

/-- A break of the body is taken, other signals are the result, and after a value the last clause
comes next. -/
theorem behindBody_eq_ok_iff {bound : Nat} {v : Value} :
    behindBody eval condition clause body bound v m = .ok out after ↔
      v = .breaking ∧ out = .null ∧ after = m ∨
      (v.isSignal = true ∧ v ≠ .breaking) ∧ out = v ∧ after = m ∨
      v.isSignal = false ∧
        ((∃ e, clause = some e ∧ eval e m = .ok out after ∧ out.isSignal = true) ∨
          ∃ between, RunsThrough (clause.map eval) m between ∧
            passes eval condition clause body bound v between = .ok out after) := by
  have hupdate : (do
      match ← update eval clause with
      | some signal => return signal
      | none => passes eval condition clause body bound v : Eval Value) m = .ok out after ↔
        (∃ e, clause = some e ∧ eval e m = .ok out after ∧ out.isSignal = true) ∨
          ∃ between, RunsThrough (clause.map eval) m between ∧
            passes eval condition clause body bound v between = .ok out after := by
    simp only [bind_eq_ok_iff, Option.exists, ← update_eq_some_iff, ← update_eq_none_iff,
      pure_eq_ok_iff]
    grind
  cases v with
  | breaking | error f | returning w =>
    simp [behindBody, Value.isSignal, pure_eq_ok_iff]
  | _ => simpa [behindBody, Value.isSignal] using hupdate

/-- One more pass either ends the loop or is a whole pass with the rest of the loop behind it. -/
theorem passes_succ {bound : Nat} :
    passes eval condition clause body (bound + 1) last m = .ok out after ↔
      EndsIn eval condition clause body (last, m) out after ∨
      ∃ next, WholePass eval condition clause body (last, m) next ∧
        passes eval condition clause body bound next.1 next.2 = .ok out after := by
  constructor
  · intro h
    obtain ⟨o, tested, ho, -⟩ := bind_eq_ok_iff.mp h
    rcases endsBefore_eq_ok_iff.mp ho with ⟨rfl, hg⟩ | ⟨e, v, hc, hv, ⟨hs, rfl⟩ | ⟨hs, ht, rfl⟩⟩
    · rw [passes_of_goesOn hg] at h
      obtain ⟨v, done, hb, h⟩ := bind_eq_ok_iff.mp h
      rcases behindBody_eq_ok_iff.mp h with
        ⟨rfl, rfl, rfl⟩ | ⟨hs, rfl, rfl⟩ | ⟨hs, ⟨e, hu, he, hsignal⟩ | ⟨between, hu, hp⟩⟩
      · exact .inl (.bodyBreaks hg hb)
      · exact .inl (.bodySignals hg hb hs.1 hs.2)
      · exact .inl (.updateSignals hg hb hs hu he hsignal)
      · exact .inr ⟨(v, between), ⟨tested, done, hg, hb, hs, hu⟩, hp⟩
    · rw [passes_of_ended ho] at h
      cases h
      exact .inl (.testSignals hc hv hs)
    · rw [passes_of_ended ho] at h
      cases h
      exact .inl (.fails hc hv hs ht)
  · have hbehind {v : Value} {tested done : Machine} (hg : GoesOn eval condition m tested)
        (hb : block eval body tested = .ok v done)
        (h : behindBody eval condition clause body bound v done = .ok out after) :
        passes eval condition clause body (bound + 1) last m = .ok out after := by
      rw [passes_of_goesOn hg]
      exact bind_eq_ok_iff.mpr ⟨v, done, hb, h⟩
    rintro (h | ⟨next, ⟨tested, done, hg, hb, hs, hu⟩, h⟩)
    · cases h with
      | fails hc hv hs ht =>
        exact passes_of_ended (endsBefore_eq_ok_iff.mpr (.inr ⟨_, _, hc, hv, .inr ⟨hs, ht, rfl⟩⟩)) _
      | testSignals hc hv hs =>
        exact passes_of_ended (endsBefore_eq_ok_iff.mpr (.inr ⟨_, _, hc, hv, .inl ⟨hs, rfl⟩⟩)) _
      | bodyBreaks hg hb =>
        exact hbehind hg hb (behindBody_eq_ok_iff.mpr (.inl ⟨rfl, rfl, rfl⟩))
      | bodySignals hg hb hs hn =>
        exact hbehind hg hb (behindBody_eq_ok_iff.mpr (.inr (.inl ⟨⟨hs, hn⟩, rfl, rfl⟩)))
      | updateSignals hg hb hv hu he hs =>
        exact hbehind hg hb
          (behindBody_eq_ok_iff.mpr (.inr (.inr ⟨hv, .inl ⟨_, hu, he, hs⟩⟩)))
    · exact hbehind hg hb (behindBody_eq_ok_iff.mpr (.inr (.inr ⟨hs, .inr ⟨_, hu, h⟩⟩)))

/-- Within some bound the passes give a result exactly if whole passes lead to one that ends the
loop. The induction is on the bound in one direction and on the passes in the other. -/
theorem passes_eq_ok_iff :
    (∃ bound, passes eval condition clause body bound last m = .ok out after) ↔
      ∃ reached, Relation.ReflTransGen (WholePass eval condition clause body) (last, m) reached ∧
        EndsIn eval condition clause body reached out after := by
  constructor
  · rintro ⟨bound, h⟩
    induction bound generalizing last m with
    | zero => cases h
    | succ bound ih =>
      rcases passes_succ.mp h with hends | ⟨next, hpass, hrest⟩
      · exact ⟨_, .refl, hends⟩
      · obtain ⟨reached, hpasses, hends⟩ := ih hrest
        exact ⟨reached, .head hpass hpasses, hends⟩
  · rintro ⟨reached, hpasses, hends⟩
    generalize hstart : (last, m) = before at hpasses
    induction hpasses using Relation.ReflTransGen.head_induction_on generalizing last m with
    | refl =>
      subst hstart
      exact ⟨1, passes_succ.mpr (.inl hends)⟩
    | head hpass _ ih =>
      subst hstart
      obtain ⟨bound, hrest⟩ := ih rfl
      exact ⟨bound + 1, passes_succ.mpr (.inr ⟨_, hpass, hrest⟩)⟩

/-! ## Loops -/

/-- The state in which a loop, or a block, starts: that of a new scope. -/
def inside (m : Machine) : Machine := (Bracket.scope m.nextScope).enter (m.opened m.scope)

/-- The state behind a loop, or a block, that started from `m`: the one in which it ended, back in
the scope of `m`. -/
def outside (m last : Machine) : Machine := { last with scope := m.scope }

theorem inNewScope_eq_ok_iff {α : Type} {x : Eval α} {a : α} :
    inNewScope x m = .ok a after ↔ ∃ last, x (inside m) = .ok a last ∧ after = outside m last := by
  change within (.scope m.nextScope) x (m.opened m.scope) = _ ↔ _
  rw [within_eq]
  change closed _ (m.opened m.scope) (x (inside m)) = _ ↔ _
  cases x (inside m) with
  | ok b last =>
    simp only [closed, EStateM.Result.ok.injEq]
    constructor
    · rintro ⟨rfl, rfl⟩
      exact ⟨last, ⟨rfl, rfl⟩, rfl⟩
    · rintro ⟨_, ⟨rfl, rfl⟩, rfl⟩
      exact ⟨rfl, rfl⟩
  | error stop last => simp [closed]

/-- Within some bound a loop gives a result exactly if its first clause is a signal, or it reaches
a pass that ends it. -/
theorem loop_eq_ok_iff :
    (∃ bound, loop bound eval initializer condition clause body m = .ok out after) ↔
      ∃ last, after = outside m last ∧
        ((∃ s, initializer = some s ∧ statement eval s (inside m) = .ok out last ∧
            out.isSignal = true) ∨
          ∃ reached, Reaches eval initializer condition clause body (inside m) reached ∧
            EndsIn eval condition clause body reached out last) := by
  constructor
  · rintro ⟨bound, h⟩
    obtain ⟨last, hrun, rfl⟩ := inNewScope_eq_ok_iff.mp h
    refine ⟨last, rfl, ?_⟩
    obtain ⟨o, started, hs, hrest⟩ := bind_eq_ok_iff.mp hrun
    cases o with
    | some signal =>
      cases hrest
      exact .inl (start_eq_some_iff.mp hs)
    | none =>
      obtain ⟨reached, hpasses, hends⟩ := passes_eq_ok_iff.mp ⟨bound, hrest⟩
      exact .inr ⟨reached, ⟨started, start_eq_none_iff.mp hs, hpasses⟩, hends⟩
  · rintro ⟨last, rfl, hs | ⟨reached, ⟨started, hs, hpasses⟩, hends⟩⟩
    · have hstart := start_eq_some_iff.mpr hs
      exact ⟨0, inNewScope_eq_ok_iff.mpr ⟨last, bind_eq_ok_iff.mpr ⟨_, _, hstart, rfl⟩, rfl⟩⟩
    · have hstart := start_eq_none_iff.mpr hs
      obtain ⟨bound, h⟩ := passes_eq_ok_iff.mpr ⟨reached, hpasses, hends⟩
      exact ⟨bound, inNewScope_eq_ok_iff.mpr ⟨last, bind_eq_ok_iff.mpr ⟨_, _, hstart, h⟩, rfl⟩⟩

theorem Reaches.plain {reached : Value × Machine}
    (h : Reaches eval initializer condition clause body m reached) :
    reached.1.isSignal = false := by
  obtain ⟨started, -, hpasses⟩ := h
  cases hpasses with
  | refl => rfl
  | tail _ hpass =>
    obtain ⟨_, _, _, _, hs, _⟩ := hpass
    exact hs

/-- A loop that ends with a break comes to it in its heading: a break of the body ends it with
`null`. -/
theorem headingBreaks_iff : HeadingBreaks eval initializer condition clause body m after ↔
    (∃ s, initializer = some s ∧ statement eval s m = .ok .breaking after ∧
        Value.breaking.isSignal = true) ∨
      ∃ reached, Reaches eval initializer condition clause body m reached ∧
        EndsIn eval condition clause body reached .breaking after := by
  constructor
  · rintro (⟨hi, hb⟩ | ⟨hr, hc, hb⟩ | ⟨hr, hg, hv, hs, hu, hb⟩)
    · exact .inl ⟨_, hi, hb, rfl⟩
    · exact .inr ⟨_, hr, .testSignals hc hb rfl⟩
    · exact .inr ⟨_, hr, .updateSignals hg hv hs hu hb rfl⟩
  · rintro (⟨s, hi, hb, -⟩ | ⟨reached, hr, hends⟩)
    · exact .initializer hi hb
    · generalize hout : Value.breaking = out at hends
      cases hends with
      | fails hc hv hs ht =>
        -- The value of the last whole pass is no signal.
        have hplain := hr.plain
        rw [← hout] at hplain
        cases hplain
      | testSignals hc hv hs => exact .condition hr hc (hout ▸ hv)
      | bodyBreaks hg hb => cases hout
      | bodySignals hg hb hs hn => exact absurd hout.symm hn
      | updateSignals hg hb hv hu he hs => exact .clause hr hg hb hv hu (hout ▸ he)

theorem EndsIn.result {reached : Value × Machine}
    (h : EndsIn eval condition clause body reached out after) :
    out.isSignal = true ∨ out = .null ∨ out = reached.1 := by
  cases h with
  | fails => exact .inr (.inr rfl)
  | bodyBreaks => exact .inr (.inl rfl)
  | testSignals _ _ hs | bodySignals _ _ hs _ | updateSignals _ _ _ _ _ hs => exact .inl hs

/-- A loop gives a break exactly if it comes to one in its heading, and a break in the body never
leaves it. What it gives else is an error, a return, `null` or the value of the last pass. -/
theorem break_leaves_loop_from_heading (eval : EvalExpr Eval) (initializer : Option Statement)
    (condition clause : Option Expr) (body : Block) (m : Machine) :
    (∀ after, (∃ bound, loop bound eval initializer condition clause body m = .ok .breaking after) ↔
      ∃ last, after = outside m last ∧
        HeadingBreaks eval initializer condition clause body (inside m) last) ∧
    ∀ bound out after, loop bound eval initializer condition clause body m = .ok out after →
      out ≠ .breaking → (∃ f, out = .error f) ∨ (∃ v, out = .returning v) ∨ out = .null ∨
        ∃ state, Reaches eval initializer condition clause body (inside m) (out, state) := by
  constructor
  · intro after
    rw [loop_eq_ok_iff]
    simp only [headingBreaks_iff]
  · intro bound out after h hn
    by_cases hs : out.isSignal = true
    · rcases Value.isSignal_iff.mp hs with hbreak | herror | hreturn
      · exact absurd hbreak hn
      · exact .inl herror
      · exact .inr (.inl hreturn)
    · obtain ⟨last, -, ⟨s, -, -, hsignal⟩ | ⟨reached, hr, hends⟩⟩ := loop_eq_ok_iff.mp ⟨bound, h⟩
      · exact absurd hsignal hs
      · rcases hends.result with hsignal | hnull | rfl
        · exact absurd hsignal hs
        · exact .inr (.inr (.inl hnull))
        · exact .inr (.inr (.inr ⟨reached.2, hr⟩))

/-- The loop `for (var i = 0; i < 1; i++) { 7 }` gives the value of its only pass. -/
theorem only_pass_gives_value :
    let m := Machine.start Host.plain .unlimited 0
    let eval : EvalExpr Eval := expr Host.plain 9
    let initializer : Statement := .var "i" (.integer 0 .start) .start
    let more : Expr := .binary .less (.identifier "i" .start) (.integer 1 .start) .start
    let clause : Expr := .step .increment "i" .start
    let body : Block := .mk [.expression (.integer 7 .start) .start] .start
    (∃ after, loop 9 eval (some initializer) (some more) (some clause) body m =
        .ok (.integer 7) after) ∧
      ∃ state, Reaches eval (some initializer) (some more) (some clause) body (inside m)
        (.integer 7, state) := by
  intro m eval initializer more clause body
  obtain ⟨after, h⟩ : ∃ after, loop 9 eval (some initializer) (some more) (some clause) body m =
      .ok (.integer 7) after := ⟨_, rfl⟩
  have hout := (break_leaves_loop_from_heading eval (some initializer) (some more) (some clause)
    body m).2 9 _ after h (by simp)
  exact ⟨⟨after, h⟩, by simpa using hout⟩

/-- A loop that its condition leaves by a break: `for (; if (true) { break; }; ) { }`. -/
def leftByCondition : Expr :=
  let breaks : Expr :=
    .conditional (.boolean true .start) (.mk [.breaking .start] .start) none .start
  .loop none (some breaks) none (.mk [] .start) .start

/-- The break in the condition of the inner loop is its result and ends the outer loop, in
`var hits = 0; for (var i = 0; i < 3; i++) { for (; if (true) { break; }; ) { } hits++; } hits`:
no pass of the outer loop comes to its end. -/
theorem break_in_condition_ends_outer_loop :
    let m := Machine.start Host.plain .unlimited 0
    let hits : Expr := .identifier "hits" .start
    let more : Expr := .binary .less (.identifier "i" .start) (.integer 3 .start) .start
    let body : Block := .mk [.expression leftByCondition .start,
      .expression (.step .increment "hits" .start) .start] .start
    let outer : Expr := .loop (some (.var "i" (.integer 0 .start) .start)) (some more)
      (some (.step .increment "i" .start)) body .start
    let p : Program := [.var "hits" (.integer 0 .start) .start, .expression outer .start,
      .expression hits .start]
    (∃ after, (expr Host.plain 9 leftByCondition : Eval Value) m = .ok .breaking after) ∧
      ∃ after, (program Host.plain 9 p : Eval Value) m = .ok (.integer 0) after := by
  intro m hits more body outer p
  exact ⟨⟨_, rfl⟩, ⟨_, rfl⟩⟩

end Eval

end ScriptLang
