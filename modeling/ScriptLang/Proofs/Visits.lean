-- Evaluation that writes down what it comes to, and while which files are being imported. It gives
-- what a run gives, it comes to what a run comes to, and the open imports of a state are the paths
-- of the files that it writes down there.
import ScriptLang.Proofs.Frames

namespace ScriptLang

open Eval

/-- What a run comes to in a state: at which level of nesting, and while which files are being
imported, the outermost first. -/
structure Visit where
  level : Nat
  files : List String
  event : Event
  machine : Machine

namespace Visit

/-- A visit from outside the file that it is made in. -/
def within (file : String) (k : Visit) : Visit := { k with files := file :: k.files }

/-- The moment of a visit. -/
def moment (k : Visit) : Moment := ⟨some k.event, k.machine⟩

end Visit

/-- An evaluation at a level of nesting that also gives the visits it makes. -/
def Visiting (α : Type) : Type := Nat → Machine → List Visit × EStateM.Result Stop Machine α

namespace Visiting

variable {α β : Type}

/-- Goes on from a result and puts the visits behind each other. -/
def go (f : α → Visiting β) (level : Nat) : List Visit × EStateM.Result Stop Machine α →
    List Visit × EStateM.Result Stop Machine β
  | (before, .ok a m) => (before ++ (f a level m).1, (f a level m).2)
  | (before, .error stop m) => (before, .error stop m)

instance : Monad Visiting where
  pure a _ m := ([], .ok a m)
  bind x f level m := go f level (x level m)

instance : MonadMachine Visiting where
  act step _ m := ([], step m)
  inBracket b x level m :=
    let inside := x level (b.enter m)
    (inside.1, closed b m inside.2)
  nested level x _ := x level
  inFile file x level m :=
    let inside := x level m
    (inside.1.map (Visit.within file), inside.2)
  note event level m := ([⟨level, [], event, m⟩], .ok () m)

end Visiting

namespace Eval

variable {α : Type}

/-- What the visits in a file come to outside it. -/
def leave (file : String) : List Visit × EStateM.Result Stop Machine α →
    List Visit × EStateM.Result Stop Machine (Except Fault α)
  | (visits, .ok a after) =>
    (visits.map (Visit.within file), .ok (.ok a) { after with imports := after.imports.tail })
  | (visits, .error stop after) =>
    (visits.map (Visit.within file), .error stop { after with imports := after.imports.tail })

theorem mem_leave {file : String} {t : List Visit × EStateM.Result Stop Machine α}
    {k : Visit} : k ∈ (leave file t).1 ↔ ∃ inside ∈ t.1, inside.within file = k := by
  obtain ⟨visits, r⟩ := t
  cases r <;> exact List.mem_map

theorem leave_ok {file : String} {after : Machine} {a : α}
    {t : List Visit × EStateM.Result Stop Machine α} (h : t.2 = .ok a after) :
    (leave file t).2 = .ok (.ok a) { after with imports := after.imports.tail } := by
  obtain ⟨visits, r⟩ := t
  cases h
  rfl

/-- An import makes its visits in its file, or makes none and gives the reason. -/
theorem inImport_visiting (host : Host) (file : String) (run : Program → Visiting α) (level : Nat)
    (m : Machine) :
    inImport host file run level m = match host.load m.imports file with
      | .error reason => ([], .ok (.error reason) m)
      | .ok p => leave file (run p level ((Bracket.importing (host.pathOf file)).enter m)) := by
  change (match host.load m.imports file with
    | .error reason => pure (.error reason)
    | .ok p => do
      let result ← inBracket (.importing (host.pathOf file)) (inFile file (run p))
      return .ok result : Visiting (Except Fault α)) level m = _
  cases host.load m.imports file with
  | error reason => rfl
  | ok p =>
    dsimp only
    change Visiting.go _ level (List.map _ (run p level _).1, closed _ m (run p level _).2) = _
    rcases run p level ((Bracket.importing (host.pathOf file)).enter m) with ⟨visits, r⟩
    cases r with
    | ok a after => simp [Visiting.go, closed, Bracket.leave, leave, pure]
    | error stop after => rfl

end Eval

/-- The visits that the run of a program makes. -/
def Eval.visits (host : Host) (fuel : Nat) (p : Program) (m : Machine) : List Visit :=
  (program (M := Visiting) host fuel p fuel m).1

/-! ## Visits and moments -/

variable {α β : Type}

/-- Visits that come to the result of a trace, and to what the trace comes to. -/
structure Recorded (P : α → Prop) (v : List Visit × EStateM.Result Stop Machine α)
    (t : List Moment × EStateM.Result Stop Machine α) : Prop where
  result : v.2 = t.2
  events : v.1.map Visit.moment = t.1.filter (·.event.isSome)
  holds : ∀ a after, t.2 = .ok a after → P a

namespace Recorded

variable {P : α → Prop} {Q : β → Prop}

theorem pure {a : α} (h : P a) (level : Nat) (m : Machine) :
    Recorded P (Pure.pure (f := Visiting) a level m) (Pure.pure (f := Traced) a m) := by
  refine ⟨rfl, rfl, ?_⟩
  rintro _ _ ⟨⟩
  exact h

theorem act {step : Eval α} (h : ∀ m a after, step m = .ok a after → P a) (level : Nat)
    (m : Machine) : Recorded P (MonadMachine.act (M := Visiting) step level m)
      (MonadMachine.act (M := Traced) step m) :=
  ⟨rfl, rfl, h m⟩

theorem note (event : Event) (level : Nat) (m : Machine) :
    Recorded (fun _ => True) (MonadMachine.note (M := Visiting) event level m)
      (MonadMachine.note (M := Traced) event m) :=
  ⟨rfl, rfl, fun _ _ _ => trivial⟩

theorem bind {x : Visiting α} {y : Traced α} {f : α → Visiting β} {g : α → Traced β} {level : Nat}
    {m : Machine} (h : Recorded P (x level m) (y m))
    (hf : ∀ a, P a → ∀ between, Recorded Q (f a level between) (g a between)) :
    Recorded Q ((x >>= f) level m) ((y >>= g) m) := by
  change Recorded Q (Visiting.go f level (x level m)) (Traced.go g (y m))
  rcases hx : x level m with ⟨visits, r⟩
  rcases hy : y m with ⟨moments, r'⟩
  rw [hx, hy] at h
  obtain ⟨rfl, hevents, hholds⟩ := h
  cases r with
  | error stop between => exact ⟨rfl, hevents, by simp [Traced.go]⟩
  | ok a between =>
    obtain ⟨hr, hrest, hq⟩ := hf a (hholds a between rfl) between
    refine ⟨hr, ?_, hq⟩
    simp only [Visiting.go, Traced.go, List.map_append, List.filter_append]
    rw [hevents, hrest]

theorem inBracket {b : Bracket} {x : Visiting α} {y : Traced α} {level : Nat} {m : Machine}
    (h : Recorded P (x level (b.enter m)) (y (b.enter m))) :
    Recorded P (inBracket b x level m) (inBracket b y m) := by
  refine ⟨congrArg (closed b m) h.result, ?_, ?_⟩
  · change (x level (b.enter m)).1.map Visit.moment = _
    rw [h.events]
    simp [MonadMachine.inBracket]
  · intro a after hr
    obtain ⟨last, hy⟩ := ok_of_closed hr
    exact h.holds a last hy

/-- The file that a visit is made in is no part of its moment. -/
theorem inFile {file : String} {x : Visiting α} {y : Traced α} {level : Nat} {m : Machine}
    (h : Recorded P (x level m) (y m)) : Recorded P (inFile file x level m) (inFile file y m) := by
  refine ⟨h.result, ?_, h.holds⟩
  change ((x level m).1.map (Visit.within file)).map Visit.moment = _
  rw [List.map_map]
  exact h.events

end Recorded

/-- Every evaluation makes the visits that its trace comes to. -/
def recorded (host : Host) : Rules host Visiting Traced :=
  BracketRules.rules
    { Kept := fun _ => True
      Given := fun _ => True
      Flows := fun _ => True
      Rel := fun x y P => ∀ level m, Recorded P (x level m) (y m)
      kept_of_plain := fun _ => trivial
      given_of_kept := fun _ => trivial
      given_error := fun _ => trivial
      given_settled := fun _ => trivial
      flows_of_given := fun _ => trivial
      flows_breaking := trivial
      flows_returning := fun _ => trivial
      mono := fun h hpq level m => { h level m with
        holds := fun a after hr => hpq a ((h level m).holds a after hr) }
      pure := .pure
      bind := fun h hf level m => (h level m).bind fun a ha => hf a ha level
      act := fun h => .act fun _ _ _ => h.result_of_true
      evaluates := fun _ => .note _
      executes := fun _ => .note _
      nested := fun level _ _ _ h _ => h level
      calls := fun _ _ => .note _
      frame := .act fun _ _ _ _ => trivial
      newScope := fun _ => .act fun _ _ _ _ => trivial
      overflow := fun _ => .act nofun
      inBracket := fun b _ _ _ h level m => (h level (b.enter m)).inBracket
      inFile := fun _ _ _ _ h level m => (h level m).inFile }

namespace Eval

variable {host : Host} {fuel : Nat}

/-- What an evaluation of an expression gives does not depend on the visits that are written
down. -/
theorem expr_visiting (e : Expr) (level : Nat) (m : Machine) :
    (expr (M := Visiting) host fuel e level m).2 = expr (M := Eval) host fuel e m := by
  rw [((recorded host).expr fuel e level m).result]
  exact (((StoreInvariant.trivial host).rules.expr fuel e) m trivial).1.result

theorem statement_visiting (s : Statement) (level : Nat) (m : Machine) :
    (statement (expr (M := Visiting) host fuel) s level m).2 =
      statement (expr (M := Eval) host fuel) s m := by
  let R := recorded host
  let T := (StoreInvariant.trivial host).rules
  rw [(R.statement (R.expr fuel) s level m).result]
  exact (T.statement (T.expr fuel) s m trivial).1.result

theorem program_visiting (p : Program) (level : Nat) (m : Machine) :
    (program (M := Visiting) host fuel p level m).2 = program (M := Eval) host fuel p m := by
  rw [((recorded host).program fuel p level m).result]
  exact (follows_program host fuel p m).result

/-- The visits of a run are the moments in which it comes to something. -/
theorem moments_of_visits (host : Host) (fuel : Nat) (p : Program) (m : Machine) :
    (visits host fuel p m).map Visit.moment =
      (moments host fuel p m).filter (·.event.isSome) := by
  unfold visits moments
  rw [((recorded host).program fuel p fuel m).events]
  simp

end Eval

/-! ## Open files -/

/-- Visits from a state: the open imports of each are the paths of its files, on top of those that
were open before. -/
structure Chained (host : Host) (P : α → Prop) (m : Machine)
    (t : List Visit × EStateM.Result Stop Machine α) : Prop where
  imports : (left t.2).imports = m.imports
  chain : ∀ k ∈ t.1, k.machine.imports = (k.files.map host.pathOf).reverse ++ m.imports
  holds : ∀ a after, t.2 = .ok a after → P a

namespace Chained

variable {host : Host} {P : α → Prop} {Q : β → Prop} {level : Nat} {m : Machine}

theorem pure {a : α} (h : P a) (level : Nat) (m : Machine) :
    Chained host P m (Pure.pure (f := Visiting) a level m) := by
  refine ⟨rfl, by simp [Pure.pure], ?_⟩
  rintro _ _ ⟨⟩
  exact h

theorem note (event : Event) (level : Nat) (m : Machine) :
    Chained host (fun _ => True) m (MonadMachine.note (M := Visiting) event level m) :=
  ⟨rfl, by simp [MonadMachine.note], fun _ _ _ => trivial⟩

theorem act {step : Eval α} (hs : Restores step) (h : ∀ m a after, step m = .ok a after → P a)
    (level : Nat) (m : Machine) :
    Chained host P m (MonadMachine.act (M := Visiting) step level m) :=
  ⟨congrArg Frame.imports (hs m), by simp [MonadMachine.act], h m⟩

theorem bind {x : Visiting α} {f : α → Visiting β} (h : Chained host P m (x level m))
    (hf : ∀ a, P a → ∀ between, Chained host Q between (f a level between)) :
    Chained host Q m ((x >>= f) level m) := by
  change Chained host Q m (Visiting.go f level (x level m))
  rcases hx : x level m with ⟨before, r⟩
  rw [hx] at h
  cases r with
  | error stop between => exact ⟨h.imports, h.chain, by simp [Visiting.go]⟩
  | ok a between =>
    have hback : between.imports = m.imports := h.imports
    have hrest := hf a (h.holds a between rfl) between
    refine ⟨hrest.imports.trans hback, ?_, hrest.holds⟩
    intro k hk
    rcases List.mem_append.mp hk with hb | ha
    · exact h.chain k hb
    · rw [← hback]
      exact hrest.chain k ha

/-- A part of a program in a new scope or a call. It may not leave files open behind it. -/
theorem inBracket {b : Bracket} {x : Visiting α} (hb : (b.enter m).imports = m.imports)
    (h : Chained host P (b.enter m) (x level (b.enter m))) :
    Chained host P m (inBracket b x level m) := by
  refine ⟨?_, ?_, ?_⟩
  · change (left (closed b m (x level (b.enter m)).2)).imports = _
    rw [left_closed]
    have hback := h.imports.trans hb
    cases b with
    | scope inner | call => exact hback
    | importing path => exact absurd hb (List.cons_ne_self path m.imports)
  · intro k hk
    rw [← hb]
    exact h.chain k hk
  · intro a after hr
    obtain ⟨last, hx⟩ := ok_of_closed hr
    exact h.holds a last hx

/-- A new scope leaves the open imports alone. -/
theorem opened {x : Visiting α} {b : Bracket} (outer : ScopeId)
    (hb : (b.enter m).imports = m.imports)
    (h : ∀ inner, Chained host P inner (x level inner)) :
    Chained host P m (MonadMachine.inBracket b x level (m.opened outer)) := by
  have hopened : (b.enter (m.opened outer)).imports = m.imports := by
    rw [← hb]
    cases b <;> rfl
  obtain ⟨hback, hchain, hholds⟩ := inBracket (m := m.opened outer) hopened (h _)
  exact ⟨hback, hchain, hholds⟩

theorem inNewScope {x : Visiting α} (h : ∀ inner, Chained host P inner (x level inner))
    (m : Machine) : Chained host P m (inNewScope x level m) :=
  opened (b := .scope m.nextScope) m.scope rfl h

theorem inCall {limit : Nat} {closure : Closure} {args : List Value} {x : Visiting α}
    (h : ∀ inner, Chained host P inner (x level inner)) (m : Machine) :
    Chained host P m (inCall limit closure args x level m) := by
  refine bind (note _ level m) fun _ _ between => ?_
  change Chained host P between
    ((if limit ≤ between.depth then liftM (fail (.stackOverflow limit)) else _ : Visiting α)
      level between)
  split
  · exact ⟨rfl, by simp [liftM, monadLift, MonadLift.monadLift, MonadMachine.act], nofun⟩
  · exact opened (b := .call) closure.scope rfl fun inner => .inBracket rfl (h _)

/-- The visits in a file are made while its path is open. -/
theorem leave {file : String} {t : List Visit × EStateM.Result Stop Machine α}
    (h : Chained host P ((Bracket.importing (host.pathOf file)).enter m) t) :
    Chained host (fun r => ∀ a, r = .ok a → P a) m (leave file t) := by
  have hback : (left t.2).imports.tail = m.imports := by
    rw [h.imports]
    rfl
  obtain ⟨visits, r⟩ := t
  have hpaths : ∀ k ∈ (Eval.leave file (visits, r)).1,
      k.machine.imports = (k.files.map host.pathOf).reverse ++ m.imports := by
    intro k hk
    obtain ⟨inside, hmem, rfl⟩ := mem_leave.mp hk
    have hopen : inside.machine.imports =
        (inside.files.map host.pathOf).reverse ++ host.pathOf file :: m.imports :=
      h.chain inside hmem
    change inside.machine.imports = _
    simp [hopen, Visit.within]
  cases r with
  | error stop after => exact ⟨hback, hpaths, by simp [Eval.leave]⟩
  | ok a after =>
    refine ⟨hback, hpaths, ?_⟩
    rintro _ _ ⟨⟩ _ ⟨⟩
    exact h.holds a after rfl

theorem inImport {file : String} {f : Program → Visiting α}
    (h : ∀ p inner, Chained host P inner (f p level inner)) (m : Machine) :
    Chained host (fun r => ∀ a, r = .ok a → P a) m (inImport host file f level m) := by
  rw [inImport_visiting]
  cases host.load m.imports file with
  | error reason => exact ⟨rfl, by simp, by rintro _ _ ⟨⟩ _ ⟨⟩⟩
  | ok p => exact leave (h p _)

end Chained

/-- In every evaluation the open imports are the paths of the files that it is in. -/
def chained (host : Host) : Rules host Visiting Visiting where
  Kept _ := True
  Given _ := True
  Flows _ := True
  Rel x _ P := ∀ level m, Chained host P m (x level m)
  kept_of_plain _ := trivial
  given_of_kept _ := trivial
  given_error _ := trivial
  given_settled _ := trivial
  flows_of_given _ := trivial
  flows_breaking := trivial
  flows_returning _ := trivial
  mono h hpq level m := { h level m with
    holds := fun a after hr => hpq a ((h level m).holds a after hr) }
  pure := .pure
  bind h hf level m := (h level m).bind fun a ha => hf a ha level
  act h := .act (Stays.taken h).frame fun _ _ _ => h.result_of_true
  evaluates _ := .note _
  executes _ := .note _
  nested level _ _ _ h _ := h level
  scope h level := .inNewScope (h level)
  call _ _ _ _ _ _ h level := .inCall (h level)
  load _ _ _ _ h level := .inImport fun p => h p level

/-- The open imports of a visit are the paths of its files, the innermost first. -/
theorem Eval.imports_of_visit {host : Host} {fuel : Nat} {p : Program} {m : Machine} {k : Visit}
    (hm : m.imports = []) (h : k ∈ visits host fuel p m) :
    k.machine.imports = (k.files.map host.pathOf).reverse := by
  have hchain := ((chained host).program fuel p fuel m).chain k h
  rw [hm, List.append_nil] at hchain
  exact hchain

end ScriptLang
