-- Frames. Whatever comes of an evaluation, it ends in the scope, at the call depth and among the
-- imports that it started in. A bracket by itself does not see to that: a call takes one off
-- whatever depth it finds behind its body, and an import takes off whatever file comes first then.
-- That these are what they put on is an induction over the evaluation. Calls never nest deeper than
-- the host allows: a call too many ends the run, and nothing else ends it for that reason.
import ScriptLang.Proofs.Quiet

namespace ScriptLang

/-- The limit that was passed, if a run stopped because of that. -/
def Stop.overflow? : Stop → Option Nat
  | .fatal (.stackOverflow limit) => some limit
  | _ => none

namespace Eval

variable {α β : Type}

/-- An evaluation that ends in the frame that it starts in. -/
def Restores (x : Eval α) : Prop := ∀ m, Frame.of (left (x m)) = Frame.of m

/-- The limit that a result says was passed, if it is a stack overflow. -/
def overflow? : EStateM.Result Stop Machine α → Option Nat
  | .error stop _ => stop.overflow?
  | .ok _ _ => none

@[simp] theorem overflow?_closed (b : Bracket) (m : Machine) (r : EStateM.Result Stop Machine α) :
    overflow? (closed b m r) = overflow? r := by
  cases r <;> rfl

/-- Behind a part that ends in the frame in which it starts, the frame is that before the
bracket. -/
theorem Bracket.frame_leave (b : Bracket) {m last : Machine}
    (h : Frame.of last = Frame.of (b.enter m)) : Frame.of (b.leave m last) = Frame.of m := by
  obtain ⟨hscope, hdepth, himports⟩ := Frame.mk.inj h
  simp only [Frame.of, Frame.mk.injEq]
  cases b with
  | scope inner => exact ⟨rfl, hdepth, himports⟩
  | call =>
    have hback : last.depth - 1 = m.depth := by
      rw [hdepth]
      exact Nat.add_sub_cancel m.depth 1
    exact ⟨hscope, hback, himports⟩
  | importing path =>
    have hback : last.imports.tail = m.imports := by
      rw [himports]
      rfl
    exact ⟨hscope, hdepth, hback⟩

/-! ## Steps -/

/-- A step that stays in its frame and opens no calls. -/
structure Stays (step : Eval α) : Prop where
  frame : Restores step
  overflow : ∀ m, overflow? (step m) = none

namespace Stays

theorem pure (a : α) : Stays (pure a) := ⟨fun _ => rfl, fun _ => rfl⟩

theorem bind {step : Eval α} {next : α → Eval β} (h : Stays step) (hn : ∀ a, Stays (next a)) :
    Stays (step >>= next) := by
  constructor
  · intro m
    have hm := h.frame m
    rw [bind_run]
    cases hs : step m with
    | ok a between =>
      rw [hs] at hm
      exact ((hn a).frame between).trans hm
    | error stop between =>
      rw [hs] at hm
      exact hm
  · intro m
    have hm := h.overflow m
    rw [bind_run]
    cases hs : step m with
    | ok a between => exact (hn a).overflow between
    | error stop between =>
      rw [hs] at hm
      exact hm

theorem quiet {step : Eval α} (h : Quiet step) : Stays step := by
  refine ⟨fun m => (h.left_eq m).2.2, ?_⟩
  induction h with
  | bind h hn ih ihn =>
    intro m
    have hm := ih m
    rw [bind_run]
    split
    · exact ihn _ _
    · rename_i hs
      rw [hs] at hm
      exact hm
  | onSink op =>
    intro m
    simp only [Eval.onSink]
    split <;> rfl
  | _ => exact fun _ => rfl

theorem onDefinitions (f : Definitions → α × Definitions) : Stays (onDefinitions f) :=
  ⟨fun _ => rfl, fun _ => rfl⟩

theorem define (name : String) (value : Value) : Stays (define name value) :=
  ⟨fun _ => rfl, fun _ => rfl⟩

theorem assign (name : String) (value : Value) : Stays (assign name value) := by
  constructor <;> intro m <;> simp only [Eval.assign] <;> split <;> rfl

theorem step (op : StepOp) (name : String) : Stays (step op name) := by
  refine .bind (.quiet (.lookup? name)) fun o => ?_
  cases o with
  | none => exact .pure _
  | some current =>
    dsimp only
    split
    · exact .pure _
    · exact .bind (.assign _ _) fun _ => .pure current

theorem makeFunction (literal : FunctionLiteral) : Stays (makeFunction literal) := by
  refine .bind (.quiet .currentScope) fun scope => .bind (.onDefinitions _) fun id => ?_
  split
  · exact .bind (.define _ _) fun _ => .pure _
  · exact .pure _

/-- Every step of an evaluation stays in its frame. -/
theorem taken {host : Host} {Kept Given : Value → Prop} {step : Eval α} {P : α → Prop}
    (h : Taken host Kept Given step P) : Stays step := by
  cases h with
  | exhausted => exact .quiet .exhausted
  | heap => exact .quiet .heap
  | lookup? name => exact .quiet (.lookup? name)
  | closure? id => exact .onDefinitions _
  | lookup name => exact .quiet (.lookup name)
  | scopeAccess name branch => exact .quiet (.scopeAccess name branch)
  | readElement container key => exact .quiet (.readElement container key)
  | step op name => exact .step op name
  | makeFunction literal => exact .makeFunction literal
  | eraseElement container key | writeElement container key hv => exact .quiet (.onHeap _)
  | define name hv => exact .define name _
  | assign name hv => exact .assign name _
  | bindEnum name hb => exact .bind (.onDefinitions _) fun _ => .define name _
  | newArray hi => exact .quiet (.onHeap _)
  | newHash ho => exact .quiet (.onHeap _)
  | callMethod method hr ha => exact .quiet (.callMethod _ method _)
  | applyBuiltin b ha => exact .quiet (.applyBuiltin host b _)

end Stays

end Eval

/-! ## New scopes and calls -/

namespace Machine

/-- The name of the next scope that is made. -/
def nextScope (m : Machine) : ScopeId := ⟨m.store.scopes.all.size⟩

/-- The state with one more scope inside `outer`. -/
def opened (m : Machine) (outer : ScopeId) : Machine :=
  { m with store := { m.store with scopes := (m.store.scopes.enclosed outer).2 } }

end Machine

namespace Eval

/-- A call is refused at the limit, and below it runs in a new scope with one more call open. -/
theorem inCall_run (limit : Nat) (closure : Closure) (args : List Value) (x : Eval α)
    (m : Machine) :
    inCall limit closure args x m =
      if limit ≤ m.depth then .error (.fatal (.stackOverflow limit)) m
      else within .call (within (.scope m.nextScope) x) (m.opened closure.scope) := by
  change (if limit ≤ m.depth then _ else _ : Eval α) m = _
  split <;> rfl

/-- A trace with one more moment before it. -/
def behind (k : Moment) (t : List Moment × EStateM.Result Stop Machine α) :
    List Moment × EStateM.Result Stop Machine α := (k :: t.1, t.2)

theorem frame_bind_traced (k : Frame → Traced α) (m : Machine) :
    (liftM frame >>= k : Traced α) m = behind ⟨none, m⟩ (k (Frame.of m) m) := rfl

theorem inNewScope_traced (x : Traced α) (m : Machine) :
    inNewScope x m = behind ⟨none, m⟩ (behind ⟨none, m.opened m.scope⟩
      (inBracket (.scope m.nextScope) x (m.opened m.scope))) := rfl

/-- A call that the limit refuses. -/
theorem inCall_refused {limit : Nat} {m : Machine} (h : limit ≤ m.depth) (closure : Closure)
    (args : List Value) (x : Traced α) :
    inCall limit closure args x m =
      ([⟨some (.calls closure args), m⟩, ⟨none, m⟩, ⟨none, m⟩],
        .error (.fatal (.stackOverflow limit)) m) := by
  change Traced.go (fun _ => liftM frame >>= fun f => if limit ≤ f.depth then _ else _)
    (_, .ok () m) = _
  have hf : limit ≤ (Frame.of m).depth := h
  simp only [Traced.go, frame_bind_traced, if_pos hf]
  rfl

/-- A call that the limit lets through. -/
theorem inCall_granted {limit : Nat} {m : Machine} (h : m.depth < limit) (closure : Closure)
    (args : List Value) (x : Traced α) :
    inCall limit closure args x m = behind ⟨some (.calls closure args), m⟩ (behind ⟨none, m⟩
      (behind ⟨none, m.opened closure.scope⟩
        (inBracket .call (inBracket (.scope m.nextScope) x) (m.opened closure.scope)))) := by
  change Traced.go (fun _ => liftM frame >>= fun f => if limit ≤ f.depth then _ else _)
    (_, .ok () m) = _
  have hf : ¬limit ≤ (Frame.of m).depth := Nat.not_le.mpr h
  simp only [Traced.go, frame_bind_traced, if_neg hf]
  rfl

end Eval

/-! ## The frames of a trace -/

open Eval

/-- A call with as many arguments as the function takes, when no more calls may be opened. -/
def Moment.CallsTooMany (limit : Nat) (k : Moment) : Prop :=
  k.machine.depth = limit ∧ ∃ closure args,
    k.event = some (.calls closure args) ∧ closure.literal.accepts args.length = true

variable {α β : Type}

/-- A trace from a state that ends in the frame it starts in. If it starts within the limit, it
stays there, and it ends in a stack overflow exactly if it comes to a call too many. -/
structure Framed (limit : Nat) (P : α → Prop) (m : Machine)
    (t : List Moment × EStateM.Result Stop Machine α) : Prop where
  frame : Frame.of (left t.2) = Frame.of m
  result : ∀ a after, t.2 = .ok a after → P a
  depth : m.depth ≤ limit → ∀ k ∈ t.1, k.machine.depth ≤ limit
  refuses : ∀ k ∈ t.1, k.CallsTooMany limit → overflow? t.2 = some limit
  overflows : m.depth ≤ limit → ∀ n, overflow? t.2 = some n →
    n = limit ∧ ∃ k ∈ t.1, k.CallsTooMany limit

namespace Framed

variable {limit : Nat} {P : α → Prop} {Q : β → Prop} {m : Machine}

/-- The depth is part of the frame. -/
theorem depth_eq {t : List Moment × EStateM.Result Stop Machine α} (h : Framed limit P m t) :
    (left t.2).depth = m.depth := congrArg Frame.depth h.frame

/-- A moment in the same frame before a trace, that is no call too many. -/
theorem behind {k : Moment} {t : List Moment × EStateM.Result Stop Machine α}
    (hk : Frame.of k.machine = Frame.of m) (he : ¬k.CallsTooMany limit)
    (h : Framed limit P k.machine t) : Framed limit P m (behind k t) := by
  have hd : k.machine.depth = m.depth := congrArg Frame.depth hk
  refine ⟨h.frame.trans hk, h.result, ?_, ?_, ?_⟩
  · intro hm
    rw [← hd] at hm
    exact List.forall_mem_cons.mpr ⟨hm, h.depth hm⟩
  · exact List.forall_mem_cons.mpr ⟨fun hc => absurd hc he, h.refuses⟩
  · intro hm n hn
    rw [← hd] at hm
    obtain ⟨heq, k', hmem, hc⟩ := h.overflows hm n hn
    exact ⟨heq, k', List.mem_cons_of_mem _ hmem, hc⟩

theorem pure {a : α} (ha : P a) : Framed limit P m (Pure.pure (f := Traced) a m) := by
  refine ⟨rfl, ?_, by simp [Pure.pure], by simp [Pure.pure], by simp [Pure.pure, overflow?]⟩
  rintro b after ⟨⟩
  exact ha

theorem not_callsTooMany (state : Machine) : ¬Moment.CallsTooMany limit ⟨none, state⟩ := by
  rintro ⟨-, closure, args, he, -⟩
  cases he

theorem note {event : Event} (he : ∀ closure args, event ≠ .calls closure args) (m : Machine) :
    Framed limit (fun _ => True) m (MonadMachine.note (M := Traced) event m) := by
  have hk : ¬Moment.CallsTooMany limit ⟨some event, m⟩ := by
    rintro ⟨-, closure, args, h, -⟩
    exact he closure args (Option.some.inj h)
  exact behind rfl hk (pure trivial)

theorem act {step : Eval α} (h : Stays step) (hp : ∀ m a after, step m = .ok a after → P a)
    (m : Machine) : Framed limit P m (MonadMachine.act (M := Traced) step m) := by
  have hf : Frame.of (Eval.left (step m)) = Frame.of m := h.frame m
  refine ⟨hf, hp m, ?_, ?_, ?_⟩
  · intro hm k hk
    rw [List.mem_singleton.mp hk]
    exact Nat.le_trans (Nat.le_of_eq (congrArg Frame.depth hf)) hm
  · intro k hk hc
    rw [List.mem_singleton.mp hk] at hc
    exact absurd hc (not_callsTooMany _)
  · intro _ n hn
    have hnone : overflow? (step m) = none := h.overflow m
    cases hnone.symm.trans hn

theorem bind {x : Traced α} {f : α → Traced β} (h : Framed limit P m (x m))
    (hf : ∀ a, P a → ∀ between, Framed limit Q between (f a between)) :
    Framed limit Q m ((x >>= f) m) := by
  change Framed limit Q m (Traced.go f (x m))
  rcases hx : x m with ⟨before, r⟩
  rw [hx] at h
  cases r with
  | error stop between => exact ⟨h.frame, by simp [Traced.go], h.depth, h.refuses, h.overflows⟩
  | ok a between =>
    have hd : m.depth ≤ limit → between.depth ≤ limit := by
      intro hm
      rw [show between.depth = m.depth from h.depth_eq]
      exact hm
    have hn := hf a (h.result a between rfl) between
    refine ⟨hn.frame.trans h.frame, hn.result, ?_, ?_, ?_⟩
    · intro hm k hk
      rcases List.mem_append.mp hk with h1 | h1
      · exact h.depth hm k h1
      · exact hn.depth (hd hm) k h1
    · intro k hk hc
      rcases List.mem_append.mp hk with h1 | h1
      · -- The part before gave a result, so it came to no call too many.
        cases h.refuses k h1 hc
      · exact hn.refuses k h1 hc
    · intro hm n hover
      obtain ⟨heq, k, hmem, hc⟩ := hn.overflows (hd hm) n hover
      exact ⟨heq, k, List.mem_append_right _ hmem, hc⟩

theorem inBracket {b : Bracket} {x : Traced α}
    (hb : m.depth ≤ limit → (b.enter m).depth ≤ limit)
    (h : Framed limit P (b.enter m) (x (b.enter m))) : Framed limit P m (inBracket b x m) := by
  have hframe : Frame.of (Eval.left (closed b m (x (b.enter m)).2)) = Frame.of m := by
    rw [left_closed]
    exact b.frame_leave h.frame
  refine ⟨hframe, ?_, ?_, ?_, ?_⟩
  · intro a after hr
    obtain ⟨last, hx⟩ := ok_of_closed hr
    exact h.result a last hx
  · intro hm k hk
    rcases List.mem_cons.mp hk with rfl | h1
    · exact hb hm
    · rcases List.mem_append.mp h1 with h2 | h2
      · exact h.depth (hb hm) k h2
      · rw [List.mem_singleton.mp h2]
        exact Nat.le_trans (Nat.le_of_eq (congrArg Frame.depth hframe)) hm
  · intro k hk hc
    change overflow? (closed b m (x (b.enter m)).2) = _
    rw [overflow?_closed]
    rcases List.mem_cons.mp hk with rfl | h1
    · exact absurd hc (not_callsTooMany _)
    · rcases List.mem_append.mp h1 with h2 | h2
      · exact h.refuses k h2 hc
      · rw [List.mem_singleton.mp h2] at hc
        exact absurd hc (not_callsTooMany _)
  · intro hm n hover
    change overflow? (closed b m (x (b.enter m)).2) = _ at hover
    rw [overflow?_closed] at hover
    obtain ⟨heq, k, hmem, hc⟩ := h.overflows (hb hm) n hover
    exact ⟨heq, k, List.mem_cons_of_mem _ (List.mem_append_left _ hmem), hc⟩

theorem inNewScope {x : Traced α} (h : ∀ inner, Framed limit P inner (x inner)) (m : Machine) :
    Framed limit P m (inNewScope x m) := by
  rw [inNewScope_traced]
  refine behind rfl (not_callsTooMany _) ?_
  refine behind rfl (not_callsTooMany _) ?_
  exact inBracket id (h _)

theorem inCall {closure : Closure} {args : List Value} {x : Traced α}
    (ha : closure.literal.accepts args.length = true)
    (h : ∀ inner, Framed limit P inner (x inner)) (m : Machine) :
    Framed limit P m (inCall limit closure args x m) := by
  rcases Nat.lt_or_ge m.depth limit with hlt | hge
  · rw [inCall_granted hlt]
    have hcall : ¬Moment.CallsTooMany limit ⟨some (.calls closure args), m⟩ := by
      rintro ⟨hd, -⟩
      exact absurd hd (Nat.ne_of_lt hlt)
    refine behind rfl hcall ?_
    refine behind rfl (not_callsTooMany _) ?_
    refine behind rfl (not_callsTooMany _) ?_
    exact inBracket (fun _ => hlt) (inBracket id (h _))
  · -- Within the limit, a call that is refused stands exactly at it: that is the call too many.
    rw [inCall_refused hge]
    refine ⟨rfl, by simp, ?_, fun _ _ _ => rfl, ?_⟩
    · intro hm k hk
      simp only [List.mem_cons, List.not_mem_nil, or_false] at hk
      rcases hk with rfl | rfl | rfl <;> exact hm
    · rintro hm n ⟨⟩
      exact ⟨rfl, _, List.mem_cons_self, Nat.le_antisymm hm hge, closure, args, rfl, ha⟩

theorem inImport {host : Host} {file : String} {f : Program → Traced α}
    (h : ∀ p inner, Framed limit P inner (f p inner)) (m : Machine) :
    Framed limit (fun r => ∀ a, r = .ok a → P a) m (inImport host file f m) := by
  unfold Eval.inImport
  rw [frame_bind_traced]
  refine .behind rfl (not_callsTooMany _) ?_
  cases host.load (Frame.of m).imports file with
  | error reason => exact .pure (by simp)
  | ok p =>
    refine .bind (.inBracket id (h p _)) fun a ha between => .pure ?_
    rintro b ⟨⟩
    exact ha

end Framed

/-- Every evaluation ends in its frame and stays within the limit of the host. -/
def framed (host : Host) : Rules host Traced Traced where
  Kept _ := True
  Given _ := True
  Flows _ := True
  Rel x _ P := ∀ m, Framed host.maxCallDepth P m (x m)
  kept_of_plain _ := trivial
  given_of_kept _ := trivial
  given_error _ := trivial
  given_settled _ := trivial
  flows_of_given _ := trivial
  flows_breaking := trivial
  flows_returning _ := trivial
  mono h hpq m := { h m with result := fun a after hr => hpq a ((h m).result a after hr) }
  pure ha _ := .pure ha
  bind h hf m := (h m).bind hf
  act h := .act (.taken h) fun _ _ _ => h.result_of_true
  evaluates _ := .note fun _ _ => Event.noConfusion
  executes _ := .note fun _ _ => Event.noConfusion
  nested _ _ _ _ h := h
  scope h := .inNewScope h
  call _ _ _ _ _ ha h := .inCall ha h
  load _ _ _ _ h := .inImport h

namespace Eval

theorem restores {host : Host} {x : Traced α} {y : Eval α} {P Q : α → Prop}
    (h : (framed host).Rel x x P) (hf : (StoreInvariant.trivial host).rules.Rel x y Q) :
    Restores y := by
  intro m
  rw [← (hf m trivial).1.result]
  exact (h m).frame

/-- The trace of a program that starts within the limit of its host. -/
theorem framed_moments {host : Host} {fuel : Nat} {p : Program} {m : Machine}
    (hm : m.depth ≤ host.maxCallDepth) :
    (∀ k ∈ moments host fuel p m, k.machine.depth ≤ host.maxCallDepth) ∧
    ∀ limit, overflow? ((program host fuel p : Eval Value) m) = some limit ↔
      limit = host.maxCallDepth ∧
        ∃ k ∈ moments host fuel p m, k.CallsTooMany host.maxCallDepth := by
  have h : Framed host.maxCallDepth _ m (behind ⟨none, m⟩ (program (M := Traced) host fuel p m)) :=
    .behind rfl (Framed.not_callsTooMany m) ((framed host).program fuel p m)
  rw [← (follows_program host fuel p m).result]
  refine ⟨h.depth hm, fun limit => ⟨h.overflows hm limit, ?_⟩⟩
  rintro ⟨rfl, k, hk, hc⟩
  exact h.refuses k hk hc

/-- Whatever comes of an evaluation, the scope, the open calls and the open imports are afterwards
what they were before. A run that starts with no call open never has more calls open than its host
allows, and it ends in a stack overflow exactly if it comes to a call that would open one more. -/
theorem frames_restored_and_calls_bounded (host : Host) (fuel : Nat) :
    (∀ e, Restores (expr host fuel e)) ∧
    (∀ s, Restores (statement (expr host fuel) s)) ∧
    (∀ b, Restores (block (expr host fuel) b)) ∧
    (∀ callee args, Restores (apply host (expr host fuel) callee args)) ∧
    (∀ p, Restores (program host fuel p)) ∧
    ∀ (p : Program) (m : Machine), m.depth = 0 →
      (∀ k ∈ moments host fuel p m, k.machine.depth ≤ host.maxCallDepth) ∧
      ∀ limit, overflow? ((program host fuel p : Eval Value) m) = some limit ↔
        limit = host.maxCallDepth ∧
          ∃ k ∈ moments host fuel p m, k.CallsTooMany host.maxCallDepth := by
  let R := framed host
  let T := (StoreInvariant.trivial host).rules
  have hR := R.expr fuel
  have hT := T.expr fuel
  refine ⟨?_, ?_, ?_, ?_, ?_, ?_⟩
  · exact fun e => restores (hR e) (hT e)
  · exact fun s => restores (R.statement hR s) (T.statement hT s)
  · exact fun b => restores (R.block hR b) (T.block hT b)
  · exact fun callee args => restores (R.apply hR callee fun _ _ => trivial)
      (T.apply hT callee fun _ _ => trivial)
  · exact fun p => restores (R.program fuel p) (T.program fuel p)
  · intro p m hm
    exact framed_moments (hm ▸ Nat.zero_le _)

/-- Where no calls are allowed, the first call is one too many. -/
theorem first_call_overflows :
    let host : Host := { Host.plain with maxCallDepth := 0 }
    let m := Machine.start host .unlimited 0
    let callee : Expr := .function (.mk none [] (.mk [] .start)) .start
    let p : Program := [.expression (.call callee [] .start) .start]
    m.depth = 0 ∧ ∃ k ∈ moments host 9 p m, k.CallsTooMany 0 := by
  intro host m callee p
  have hm : m.depth = 0 := rfl
  have hbound := (frames_restored_and_calls_bounded host 9).2.2.2.2.2 p m hm
  exact ⟨hm, ((hbound.2 0).mp rfl).2⟩

end Eval

end ScriptLang
