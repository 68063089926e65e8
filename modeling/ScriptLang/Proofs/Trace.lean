-- Evaluation that writes down where it goes: every state that a step leaves behind, and every
-- expression, statement and call it comes to. What it gives is what a run gives, so the moments
-- of a trace are the states that a run passes through.
import ScriptLang.Proofs.Rules

namespace ScriptLang

open Eval

/-- A point of a run: a state, and what the run comes to in it, if it comes to something new. -/
structure Moment where
  event : Option Event
  machine : Machine

namespace Eval

/-- The state that a result leaves behind. -/
def left {α : Type} : EStateM.Result Stop Machine α → Machine
  | .ok _ m => m
  | .error _ m => m

/-- The state with another frame. -/
def Frame.enter (f : Frame) (m : Machine) : Machine :=
  { m with scope := f.scope, depth := f.depth, imports := f.imports }

/-- To enter a bracket only changes the frame. -/
theorem Bracket.enter_eq (b : Bracket) (m : Machine) :
    b.enter m = (Frame.of (b.enter m)).enter m := by
  cases b <;> rfl

/-- To leave a bracket only changes the frame. -/
theorem Bracket.leave_eq (b : Bracket) (before m : Machine) :
    b.leave before m = (Frame.of (b.leave before m)).enter m := by
  cases b <;> rfl

/-- A result with the bracket left behind it. -/
def closed {α : Type} (b : Bracket) (before : Machine) :
    EStateM.Result Stop Machine α → EStateM.Result Stop Machine α
  | .ok a m => .ok a (b.leave before m)
  | .error stop m => .error stop (b.leave before m)

theorem within_eq {α : Type} (b : Bracket) (step : Eval α) (m : Machine) :
    within b step m = closed b m (step (b.enter m)) := by
  unfold within closed
  cases step (b.enter m) <;> rfl

@[simp] theorem left_closed {α : Type} (b : Bracket) (before : Machine)
    (r : EStateM.Result Stop Machine α) :
    left (closed b before r) = b.leave before (left r) := by
  cases r <;> rfl

theorem ok_of_closed {α : Type} {b : Bracket} {before : Machine}
    {r : EStateM.Result Stop Machine α} {a : α} {after : Machine}
    (h : closed b before r = .ok a after) : ∃ last, r = .ok a last := by
  cases r with
  | ok b last =>
    cases h
    exact ⟨last, rfl⟩
  | error stop last => cases h

end Eval

/-- An evaluation that also gives the moments it passes through. -/
def Traced (α : Type) : Type := Machine → List Moment × EStateM.Result Stop Machine α

namespace Traced

variable {α β : Type}

/-- Goes on from a result and puts the moments behind each other. -/
def go (f : α → Traced β) : List Moment × EStateM.Result Stop Machine α →
    List Moment × EStateM.Result Stop Machine β
  | (before, .ok a m) => (before ++ (f a m).1, (f a m).2)
  | (before, .error stop m) => (before, .error stop m)

instance : Monad Traced where
  pure a m := ([], .ok a m)
  bind x f m := go f (x m)

instance : MonadMachine Traced where
  act step m := ([⟨none, left (step m)⟩], step m)
  inBracket b x m :=
    let inside := x (b.enter m)
    let result := closed b m inside.2
    (⟨none, b.enter m⟩ :: (inside.1 ++ [⟨none, left result⟩]), result)
  nested _ x := x
  inFile _ x := x
  note event m := ([⟨some event, m⟩], .ok () m)

/-- The state at the end of a list of moments that start in a state. -/
def last (m : Machine) (moments : List Moment) : Machine :=
  (moments.getLast?.map Moment.machine).getD m

theorem last_append (m : Machine) (before after : List Moment) :
    last m (before ++ after) = last (last m before) after := by
  unfold last
  rw [List.getLast?_append]
  cases after.getLast? <;> simp

end Traced

/-- The moments of the run of a program. -/
def Eval.moments (host : Host) (fuel : Nat) (p : Program) (m : Machine) : List Moment :=
  ⟨none, m⟩ :: (program (M := Traced) host fuel p m).1

/-! ## A trace follows a run -/

variable {α β : Type}

/-- A trace from a state that comes to the result of a run, and to the state that it leaves. -/
structure Follows (m : Machine) (t : List Moment × EStateM.Result Stop Machine α)
    (r : EStateM.Result Stop Machine α) : Prop where
  result : t.2 = r
  last : Traced.last m t.1 = left r

theorem Follows.bind {m : Machine} {x : Traced α} {y : Eval α} {f : α → Traced β}
    {g : α → Eval β} (h : Follows m (x m) (y m))
    (hf : ∀ a after, y m = .ok a after → Follows after (f a after) (g a after)) :
    Follows m ((x >>= f) m) ((y >>= g) m) := by
  change Follows m (Traced.go f (x m)) _
  obtain ⟨hr, hl⟩ := h
  rw [bind_run]
  cases hy : y m with
  | ok a after =>
    obtain ⟨hfr, hfl⟩ := hf a after hy
    rw [hy] at hr hl
    rw [show x m = ((x m).1, .ok a after) from Prod.ext rfl hr]
    refine ⟨hfr, ?_⟩
    simp only [Traced.go, Traced.last_append, hl]
    exact hfl
  | error stop after =>
    rw [hy] at hr hl
    rw [show x m = ((x m).1, .error stop after) from Prod.ext rfl hr]
    exact ⟨rfl, hl⟩

theorem Follows.inBracket {m : Machine} {b : Bracket} {x : Traced α} {y : Eval α}
    (h : Follows (b.enter m) (x (b.enter m)) (y (b.enter m))) :
    Follows m (inBracket b x m) (inBracket b y m) := by
  change Follows m _ (within b y m)
  rw [within_eq, ← h.result]
  exact ⟨rfl, Traced.last_append m (_ :: _) [_]⟩

/-! ## What the states of a trace have in common -/

/-- A step that keeps a property of states, with what holds of its result. -/
def Eval.Keeps (I : Machine → Prop) (step : Eval α) (P : α → Prop) : Prop :=
  ∀ m, I m → match step m with
    | .ok a after => P a ∧ I after
    | .error _ after => I after

namespace Eval.Keeps

variable {I : Machine → Prop} {P : α → Prop} {Q : β → Prop}

theorem pure {a : α} (ha : P a) : Keeps I (pure a) P := fun _ hm => ⟨ha, hm⟩

theorem bind {step : Eval α} {next : α → Eval β} (h1 : Keeps I step P)
    (h2 : ∀ a, P a → Keeps I (next a) Q) : Keeps I (step >>= next) Q := by
  intro m hm
  have hstep := h1 m hm
  rw [bind_run]
  cases hr : step m with
  | ok a after =>
    rw [hr] at hstep
    exact h2 a hstep.1 after hstep.2
  | error stop after =>
    rw [hr] at hstep
    exact hstep

theorem mono {step : Eval α} {P' : α → Prop} (h : Keeps I step P) (hp : ∀ a, P a → P' a) :
    Keeps I step P' := by
  intro m hm
  have hstep := h m hm
  cases hr : step m with
  | ok a after =>
    rw [hr] at hstep
    exact ⟨hp a hstep.1, hstep.2⟩
  | error stop after =>
    rw [hr] at hstep
    exact hstep

theorem fail (reason : Fatal) : Keeps I (fail reason) P := fun _ hm => hm

theorem frame : Keeps I frame fun _ => True := fun _ hm => ⟨trivial, hm⟩

end Eval.Keeps

/-- A trace all of whose states have a property, with what holds of its result. -/
structure Sound (I : Machine → Prop) (P : α → Prop)
    (t : List Moment × EStateM.Result Stop Machine α) : Prop where
  moments : ∀ k ∈ t.1, I k.machine
  left : I (left t.2)
  result : ∀ a after, t.2 = .ok a after → P a

namespace Sound

variable {I : Machine → Prop} {P : α → Prop} {Q : β → Prop}

theorem act {step : Eval α} (h : Keeps I step P) {m : Machine} (hm : I m) :
    Sound I P (MonadMachine.act (M := Traced) step m) := by
  have hs := h m hm
  change Sound I P ([⟨none, Eval.left (step m)⟩], step m)
  cases hr : step m with
  | ok a after =>
    rw [hr] at hs
    refine ⟨by simpa [Eval.left] using hs.2, hs.2, ?_⟩
    rintro _ _ ⟨⟩
    exact hs.1
  | error stop after =>
    rw [hr] at hs
    exact ⟨by simpa [Eval.left] using hs, hs, by simp⟩

theorem note (event : Event) {m : Machine} (hm : I m) :
    Sound I (fun _ => True) (MonadMachine.note (M := Traced) event m) :=
  ⟨by simpa [MonadMachine.note] using hm, hm, fun _ _ _ => trivial⟩

theorem bind {m : Machine} {x : Traced α} {f : α → Traced β} (h : Sound I P (x m))
    (hf : ∀ a after, I after → P a → Sound I Q (f a after)) : Sound I Q ((x >>= f) m) := by
  change Sound I Q (Traced.go f (x m))
  obtain ⟨hk, hl, hp⟩ := h
  rcases hx : x m with ⟨before, r⟩
  rw [hx] at hk hl hp
  cases r with
  | ok a after =>
    obtain ⟨hk', hl', hp'⟩ := hf a after hl (hp a after rfl)
    refine ⟨?_, hl', hp'⟩
    intro k hmem
    rcases List.mem_append.mp hmem with h1 | h1
    · exact hk k h1
    · exact hk' k h1
  | error stop after => exact ⟨hk, hl, by simp [Traced.go]⟩

theorem inBracket {m : Machine} {b : Bracket} {x : Traced α}
    (hb : I (b.enter m)) (hback : ∀ after, I after → I (b.leave m after))
    (h : Sound I P (x (b.enter m))) : Sound I P (inBracket b x m) := by
  obtain ⟨hk, hl, hp⟩ := h
  have hlast : I (Eval.left (closed b m (x (b.enter m)).2)) := by
    rw [left_closed]
    exact hback _ hl
  refine ⟨?_, hlast, ?_⟩
  · intro k hmem
    rcases List.mem_cons.mp hmem with rfl | h1
    · exact hb
    · rcases List.mem_append.mp h1 with h2 | h2
      · exact hk k h2
      · rw [List.mem_singleton.mp h2]
        exact hlast
  · intro a after hr
    obtain ⟨last, hx⟩ := ok_of_closed hr
    exact hp a last hx

end Sound

/-- A property of the store that every step of an evaluation keeps. -/
structure StoreInvariant (host : Host) where
  Holds : Machine → Prop
  Kept : Value → Prop
  Given : Value → Prop
  Flows : Value → Prop
  kept_of_plain : ∀ {v : Value}, v.isSignal = false → Kept v
  given_of_kept : ∀ {v : Value}, Kept v → Given v
  given_error : ∀ f : Fault, Given (.error f)
  given_settled : ∀ {v : Value}, Flows v → Given v.settled
  flows_of_given : ∀ {v : Value}, Given v → Flows v
  flows_breaking : Flows .breaking
  flows_returning : ∀ {v : Value}, Kept v → Flows (.returning v)
  enter : ∀ (f : Frame) {m : Machine}, Holds m → Holds (f.enter m)
  newScope : ∀ outer : ScopeId, Keeps Holds (newScope outer) fun _ => True
  taken : ∀ {α : Type} {step : Eval α} {P : α → Prop},
    Taken host Kept Given step P → Keeps Holds step P

namespace StoreInvariant

variable {host : Host} (J : StoreInvariant host)

theorem enters (b : Bracket) {m : Machine} (h : J.Holds m) : J.Holds (b.enter m) := by
  rw [b.enter_eq]
  exact J.enter _ h

theorem leaves (b : Bracket) (before : Machine) {m : Machine} (h : J.Holds m) :
    J.Holds (b.leave before m) := by
  rw [b.leave_eq]
  exact J.enter _ h

/-- From a state with the property, a traced evaluation follows the run and passes only through
states with the property. -/
def rules : Rules host Traced Eval :=
  BracketRules.rules
    { J with
      Rel := fun x y P => ∀ m, J.Holds m → Follows m (x m) (y m) ∧ Sound J.Holds P (x m)
      mono := by
        intro α x y P Q h hpq m hm
        obtain ⟨hfollow, hsound⟩ := h m hm
        exact ⟨hfollow, hsound.moments, hsound.left,
          fun a after hr => hpq a (hsound.result a after hr)⟩
      pure := by
        intro α a P ha m hm
        refine ⟨⟨rfl, rfl⟩, by simp [Pure.pure], hm, ?_⟩
        rintro b after ⟨⟩
        exact ha
      bind := by
        intro α β x y f g P Q hx hf m hm
        obtain ⟨hfollow, hsound⟩ := hx m hm
        refine ⟨hfollow.bind fun a after hr => ?_, hsound.bind fun a after hi ha => ?_⟩
        · -- The run goes on from where the trace came to, so the property holds there.
          have hok : (x m).2 = .ok a after := hfollow.result.trans hr
          have hi : J.Holds after := by simpa [hok, Eval.left] using hsound.left
          exact (hf a (hsound.result a after hok) after hi).1
        · exact (hf a ha after hi).2
      act := fun h m hm => ⟨⟨rfl, rfl⟩, .act (J.taken h) hm⟩
      evaluates := fun _ m hm => ⟨⟨rfl, rfl⟩, .note _ hm⟩
      executes := fun _ m hm => ⟨⟨rfl, rfl⟩, .note _ hm⟩
      calls := fun _ _ m hm => ⟨⟨rfl, rfl⟩, .note _ hm⟩
      nested := by
        intro α level x y P h m hm
        rw [nested_run]
        exact h m hm
      frame := fun m hm => ⟨⟨rfl, rfl⟩, .act .frame hm⟩
      newScope := fun outer m hm => ⟨⟨rfl, rfl⟩, .act (J.newScope outer) hm⟩
      overflow := fun limit m hm => ⟨⟨rfl, rfl⟩, .act (.fail _) hm⟩
      inBracket := by
        intro α b x y P h m hm
        have hb := J.enters b hm
        obtain ⟨hfollow, hsound⟩ := h (b.enter m) hb
        exact ⟨hfollow.inBracket, hsound.inBracket hb fun _ ha => J.leaves b m ha⟩
      inFile := fun _ _ _ _ h => h }

variable {x : Traced α} {y : Eval α} {P : α → Prop} {m : Machine}

theorem result (h : J.rules.Rel x y P) (hm : J.Holds m) {a : α} {after : Machine}
    (hr : y m = .ok a after) : P a := by
  obtain ⟨hfollow, hsound⟩ := h m hm
  exact hsound.result a after (hfollow.result.trans hr)

/-- The state that a run leaves has the property. -/
theorem left (h : J.rules.Rel x y P) (hm : J.Holds m) : J.Holds (Eval.left (y m)) := by
  obtain ⟨hfollow, hsound⟩ := h m hm
  rw [← hfollow.result]
  exact hsound.left

/-- Every state that a run passes through has the property. -/
theorem moments {fuel : Nat} {p : Program} {m : Machine} (hm : J.Holds m) :
    ∀ k ∈ moments host fuel p m, J.Holds k.machine := by
  intro k hk
  rcases List.mem_cons.mp hk with rfl | h1
  · exact hm
  · exact (J.rules.program fuel p m hm).2.moments k h1

end StoreInvariant

/-- The property that every state has. -/
def StoreInvariant.trivial (host : Host) : StoreInvariant host where
  Holds _ := True
  Kept _ := True
  Given _ := True
  Flows _ := True
  kept_of_plain _ := True.intro
  given_of_kept _ := True.intro
  given_error _ := True.intro
  given_settled _ := True.intro
  flows_of_given _ := True.intro
  flows_breaking := True.intro
  flows_returning _ := True.intro
  enter _ _ _ := True.intro
  newScope _ _ _ := ⟨True.intro, True.intro⟩
  taken := by
    intro α step P h m _
    cases hr : step m with
    | ok a after => exact ⟨h.result_of_true hr, True.intro⟩
    | error stop after => exact True.intro

/-- A trace of a program comes to the result of its run, and its last state is the state that the
run leaves. -/
theorem follows_program (host : Host) (fuel : Nat) (p : Program) (m : Machine) :
    Follows m (program (M := Traced) host fuel p m) (program (M := Eval) host fuel p m) :=
  ((StoreInvariant.trivial host).rules.program fuel p m True.intro).1

end ScriptLang
