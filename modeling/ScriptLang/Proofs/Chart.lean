-- Runs that keep to a chart. A chart says which nodes a run may come to, each with a state of the
-- checker, and it goes from a node to its parts. Whatever a run that starts on a chart comes to is
-- on the chart, every function that it makes is, and every name that it binds is declared there.
-- A chart may also track marks: then the names of the scope that a run is in fit the marks of the
-- node that it comes to.
import ScriptLang.Proofs.Bindings
import ScriptLang.Proofs.Frames
import ScriptLang.Proofs.Outline

namespace ScriptLang

open Eval

/-! ## Scopes that fit marks -/

/-- How closely the names of a scope fit marks. -/
inductive Fit where
  /-- Every name that is bound has its value. -/
  | exact
  /-- No name that is bound is without a value. -/
  | loose

/-- What the mark of a name that is bound may be. -/
def Fit.Allows : Fit → Option Bool → Prop
  | exact, mark => mark = some true
  | loose, mark => mark ≠ some false

/-- The innermost scope exists, and its names fit marks. -/
structure Fits (fit : Fit) (a : Marks) (m : Machine) : Prop where
  inside : m.scope.index < m.store.scopes.all.size
  names : ∀ name, m.Binds m.scope name → fit.Allows (a.lookup name)

/-- From `m` to `after`, the innermost scope gains only names that have their values in `b`, and
no other scope gains names. -/
structure Grows (b : Marks) (m after : Machine) : Prop where
  scope : after.scope = m.scope
  size : m.store.scopes.all.size ≤ after.store.scopes.all.size
  here : ∀ name, after.Binds m.scope name → m.Binds m.scope name ∨ b.lookup name = some true
  apart : ∀ id, id ≠ m.scope → id.index < m.store.scopes.all.size →
    ∀ name, after.Binds id name → m.Binds id name

variable {fit : Fit} {a b d : Marks} {m between after : Machine}

theorem Fits.loosen (h : Fits .exact a m) : Fits .loose a m := by
  refine ⟨h.inside, fun name hn => ?_⟩
  have hmark : a.lookup name = some true := h.names name hn
  simp [Fit.Allows, hmark]

/-- Where every name has its value, everything fits. -/
theorem Fits.of_settled (h : Fits fit a m) (hb : Marks.Le [] b) : Fits .loose b m := by
  refine ⟨h.inside, fun name _ hmark => ?_⟩
  cases hb.unset name hmark

theorem Fits.declare {c : Checker} (name : String) (h : Fits .exact c.marks m) :
    Fits .loose (c.declare name).marks m := by
  have hd : Fits .exact (c.declare name).marks m :=
    ⟨h.inside, fun other hb => Checker.declare_true (h.names other hb)⟩
  exact hd.loosen

theorem Fits.grown (h : Fits fit a m) (hg : Grows b m after) (hle : a.Le b) :
    Fits fit b after := by
  refine ⟨?_, fun name hn => ?_⟩
  · rw [hg.scope]
    exact Nat.lt_of_lt_of_le h.inside hg.size
  · rw [hg.scope] at hn
    rcases hg.here name hn with hn | hmark
    · have ha := h.names name hn
      cases fit with
      | exact => exact hle.kept name ha
      | loose => exact fun hb => ha (hle.unset name hb)
    · cases fit with
      | exact => exact hmark
      | loose => simp [Fit.Allows, hmark]

namespace Grows

theorem refl (b : Marks) (m : Machine) : Grows b m m :=
  ⟨rfl, Nat.le_refl _, fun _ h => .inl h, fun _ _ _ _ h => h⟩

theorem mono (h : Grows b m after) (hle : b.Le d) : Grows d m after :=
  { h with here := fun name hn => (h.here name hn).imp_right (hle.kept name) }

theorem trans (h : Grows b m between) (h' : Grows b between after) : Grows b m after := by
  refine ⟨h'.scope.trans h.scope, Nat.le_trans h.size h'.size, ?_, ?_⟩
  · intro name hn
    rw [← h.scope] at hn
    rcases h'.here name hn with hn | hmark
    · rw [h.scope] at hn
      exact h.here name hn
    · exact .inr hmark
  · intro id hid hin name hn
    refine h.apart id hid hin name (h'.apart id ?_ (Nat.lt_of_lt_of_le hin h.size) name hn)
    rw [h.scope]
    exact hid

theorem of_gains {names : List String} {made : List FunctionLiteral}
    (h : Gains names made m after) (hn : ∀ name ∈ names, b.lookup name = some true) :
    Grows b m after := by
  refine ⟨h.scope, Nat.le_of_eq h.size.symm, ?_, ?_⟩
  · intro name hb
    rcases h.binds m.scope name hb with hb | ⟨-, hmem⟩
    · exact .inl hb
    · exact .inr (hn name hmem)
  · intro id hid _ name hb
    rcases h.binds id name hb with hb | ⟨heq, -⟩
    · exact hb
    · exact absurd heq hid

/-- What happens in a new scope adds nothing to the scopes that were there before. -/
theorem of_opened {outer : ScopeId} (hin : m.scope.index < m.store.scopes.all.size)
    (h : Grows d ((Bracket.scope m.nextScope).enter (m.opened outer)) after) :
    Grows b m ((Bracket.scope m.nextScope).leave m after) := by
  have hsize : m.store.scopes.all.size < (m.opened outer).store.scopes.all.size := by
    simp [Machine.opened, Scopes.enclosed]
  have hold (id : ScopeId) (hid : id.index < m.store.scopes.all.size) (name : String)
      (hb : after.Binds id name) : m.Binds id name := by
    have hne : id ≠ m.nextScope := by
      rintro rfl
      exact Nat.lt_irrefl _ hid
    have ho := h.apart id hne (Nat.lt_trans hid hsize) name hb
    unfold Machine.Binds at ho ⊢
    rw [← Scopes.containsLocal_enclosed outer]
    exact ho
  refine ⟨rfl, Nat.le_trans (Nat.le_of_lt hsize) h.size, ?_, ?_⟩
  · exact fun name hb => .inl (hold m.scope hin name hb)
  · exact fun id _ hid => hold id hid

/-- How many calls are open says nothing about scopes. -/
theorem of_call {before : Machine} (h : Grows b (Bracket.call.enter m) after) :
    Grows b m (Bracket.call.leave before after) :=
  ⟨h.scope, h.size, h.here, h.apart⟩

end Grows

/-- A new scope has no names yet. -/
theorem Fits.opened (m : Machine) (outer : ScopeId) :
    Fits .exact [] ((Bracket.scope m.nextScope).enter (m.opened outer)) := by
  constructor
  · simp [Bracket.enter, Machine.nextScope, Machine.opened, Scopes.enclosed]
  · intro name hb
    have hnew : m.Binds m.nextScope name := by
      unfold Machine.Binds at hb ⊢
      rw [← Scopes.containsLocal_enclosed outer]
      exact hb
    unfold Machine.Binds at hnew
    rw [Scopes.containsLocal_of_size_le (by simp [Machine.nextScope])] at hnew
    cases hnew

/-! ## Charts -/

/-- Says to which nodes a run may come, and with which states of the checker. -/
structure Chart where
  Visits : Node → Checker → Prop
  /-- Whether the names of scopes fit the marks. -/
  Tracks : Prop
  part : ∀ {a b : Node} {c d : Checker}, Visits a c → (b, d) ∈ a.parts c → Visits b d
  /-- A file binds its names in the scope that imports it, so imports are not tracked. -/
  imports : ∀ {path : Expr} {position : Position} {c : Checker},
    Visits (.expr (.importFile path position)) c →
    ¬Tracks ∧ ∀ source, ∃ d, Visits (.statements (parseProgram source).program) d

namespace Chart

variable (K : Chart)

/-- A function that is on the chart. -/
def Knows (literal : FunctionLiteral) : Prop :=
  ∃ position c, K.Visits (.expr (.function literal position)) c

/-- A name that a node of the chart declares. -/
def Declares (name : String) : Prop := ∃ a c, K.Visits a c ∧ name ∈ a.declares

/-- A state that has only functions and names of the chart. -/
structure Covers (m : Machine) : Prop where
  functions : ∀ closure ∈ m.store.definitions.functions, K.Knows closure.literal
  names : ∀ id name, m.Binds id name → K.Declares name

/-- The chart leads to a node in a state whose names fit. -/
def Arrives (a : Node) (m : Machine) : Prop :=
  ∃ c, K.Visits a c ∧ (K.Tracks → Fits .loose c.marks m)

/-- What a run comes to is on the chart. -/
def Comes : Option Event → Machine → Prop
  | some (.evaluates e), m => K.Arrives (.expr e) m
  | some (.executes s), m => K.Arrives (.statement s) m
  | some (.calls closure args), _ =>
    closure.literal.accepts args.length = true ∧ K.Knows closure.literal
  | none, _ => True

/-- A moment on the chart. -/
structure Meets (k : Moment) : Prop where
  covers : K.Covers k.machine
  comes : K.Comes k.event k.machine

/-- A trace that stays on the chart. -/
structure Charted {α : Type} (b : Marks) (m : Machine)
    (t : List Moment × EStateM.Result Stop Machine α) : Prop where
  moments : ∀ k ∈ t.1, K.Meets k
  covers : K.Covers (left t.2)
  grows : K.Tracks → Grows b m (left t.2)

/-- An evaluation that stays on the chart and leads from the marks `a` to the marks `b`. -/
structure Leads {α : Type} (fit : Fit) (a b : Marks) (x : Traced α) : Prop where
  le : K.Tracks → Marks.Le a b
  charted : ∀ m, K.Covers m → (K.Tracks → Fits fit a m) → K.Charted b m (x m)

end Chart

variable {K : Chart} {α β : Type}

namespace Chart.Covers

theorem gained {names : List String} {made : List FunctionLiteral} (h : K.Covers m)
    (hg : Gains names made m after) (hn : ∀ name ∈ names, K.Declares name)
    (hm : ∀ literal ∈ made, K.Knows literal) : K.Covers after := by
  constructor
  · intro closure hc
    rcases hg.functions closure hc with hc | hc
    · exact h.functions closure hc
    · exact hm closure.literal hc
  · intro id name hb
    rcases hg.binds id name hb with hb | ⟨-, hmem⟩
    · exact h.names id name hb
    · exact hn name hmem

theorem enter (h : K.Covers m) (b : Bracket) : K.Covers (b.enter m) := by
  cases b <;> exact ⟨h.functions, h.names⟩

theorem leave (h : K.Covers m) (b : Bracket) (before : Machine) : K.Covers (b.leave before m) := by
  cases b <;> exact ⟨h.functions, h.names⟩

theorem opened (h : K.Covers m) (outer : ScopeId) : K.Covers (m.opened outer) := by
  refine ⟨h.functions, fun id name hb => h.names id name ?_⟩
  unfold Machine.Binds at hb ⊢
  rw [← Scopes.containsLocal_enclosed outer]
  exact hb

theorem start (host : Host) (sink : Sink) (seed : UInt64) :
    K.Covers (Machine.start host sink seed) := by
  refine ⟨fun closure hc => ?_, fun id name hb => ?_⟩
  · cases Array.not_mem_empty closure hc
  · cases Machine.not_binds_start host sink seed id name hb

end Chart.Covers

/-! ## Traces that stay on a chart -/

namespace Chart.Charted

variable {t : List Moment × EStateM.Result Stop Machine α}

theorem mono (h : K.Charted b m t) (hle : K.Tracks → Marks.Le b d) : K.Charted d m t :=
  { h with grows := fun ht => (h.grows ht).mono (hle ht) }

theorem behind {k : Moment} (hk : K.Meets k) (h : K.Charted b m t) :
    K.Charted b m (behind k t) :=
  { h with moments := List.forall_mem_cons.mpr ⟨hk, h.moments⟩ }

theorem pure (hm : K.Covers m) (v : α) : K.Charted b m (Pure.pure (f := Traced) v m) :=
  ⟨by simp [Pure.pure], hm, fun _ => .refl b m⟩

theorem bind {x : Traced α} {f : α → Traced β} (h : K.Charted b m (x m))
    (hle : K.Tracks → Marks.Le b d) (hf : ∀ v after, K.Covers after →
      (K.Tracks → Grows b m after) → K.Charted d after (f v after)) :
    K.Charted d m ((x >>= f) m) := by
  change K.Charted d m (Traced.go f (x m))
  rcases hx : x m with ⟨before, r⟩
  rw [hx] at h
  have hd := h.mono hle
  cases r with
  | error stop after => exact ⟨hd.moments, hd.covers, hd.grows⟩
  | ok v after =>
    have hn := hf v after h.covers h.grows
    refine ⟨?_, hn.covers, fun ht => (hd.grows ht).trans (hn.grows ht)⟩
    intro k hk
    rcases List.mem_append.mp hk with h1 | h1
    · exact h.moments k h1
    · exact hn.moments k h1

/-- What is done inside a bracket from the state `between` stays on the chart, from whatever state
that is counted. -/
theorem inBracket {start : Machine} {around : Bracket} {x : Traced α} (hm : K.Covers between)
    (h : K.Charted d start (x (around.enter between)))
    (hg : K.Tracks → Grows b m (around.leave between (left (x (around.enter between)).2))) :
    K.Charted b m (MonadMachine.inBracket around x between) := by
  have hleft : left (MonadMachine.inBracket around x between).2 =
      around.leave between (left (x (around.enter between)).2) := left_closed _ _ _
  have hcovers : K.Covers (left (MonadMachine.inBracket around x between).2) := by
    rw [hleft]
    exact h.covers.leave _ _
  refine ⟨?_, hcovers, ?_⟩
  · intro k hk
    rcases List.mem_cons.mp hk with rfl | hk
    · exact ⟨hm.enter around, trivial⟩
    · rcases List.mem_append.mp hk with hk | hk
      · exact h.moments k hk
      · rw [List.mem_singleton.mp hk]
        exact ⟨hcovers, trivial⟩
  · rw [hleft]
    exact hg

/-- What happens in a new scope stays on the chart of the scope around it. -/
theorem fresh {outer : ScopeId} {x : Traced α} (hm : K.Covers m)
    (hin : K.Tracks → m.scope.index < m.store.scopes.all.size)
    (hx : ∀ inner, K.Covers inner → (K.Tracks → Fits .exact [] inner) →
      K.Charted d inner (x inner)) :
    K.Charted b m (MonadMachine.inBracket (.scope m.nextScope) x (m.opened outer)) := by
  have hopened := hm.opened outer
  have h := hx _ (hopened.enter (.scope m.nextScope)) fun _ => .opened m outer
  exact .inBracket hopened h fun ht => .of_opened (hin ht) (h.grows ht)

/-- The same where one more call is open as well. -/
theorem called {outer : ScopeId} {x : Traced α} (hm : K.Covers m)
    (hin : K.Tracks → m.scope.index < m.store.scopes.all.size)
    (hx : ∀ inner, K.Covers inner → (K.Tracks → Fits .exact [] inner) →
      K.Charted d inner (x inner)) :
    K.Charted b m (MonadMachine.inBracket .call
      (MonadMachine.inBracket (.scope m.nextScope) x) (m.opened outer)) := by
  have h : K.Charted b (Bracket.call.enter m) (MonadMachine.inBracket (.scope m.nextScope) x
      (Bracket.call.enter (m.opened outer))) := fresh (hm.enter .call) hin hx
  exact .inBracket (hm.opened outer) h fun ht => .of_call (h.grows ht)

end Chart.Charted

/-! ## Evaluations that stay on a chart -/

namespace Chart.Leads

variable {fit' : Fit} {x : Traced α} {f : α → Traced β}

theorem mono (h : K.Leads fit a b x) (hle : K.Tracks → Marks.Le b d) : K.Leads fit a d x :=
  ⟨fun ht => (h.le ht).trans (hle ht), fun m hm hf => (h.charted m hm hf).mono hle⟩

/-- An evaluation from other marks that are fitted as well. -/
theorem refit {c : Marks} (h : K.Leads fit a b x) (hle : K.Tracks → Marks.Le c b)
    (hfit : ∀ m, Fits fit' c m → Fits fit a m) : K.Leads fit' c b x :=
  ⟨hle, fun m hm hf => h.charted m hm fun ht => hfit m (hf ht)⟩

/-- An evaluation that starts behind something that is left out. -/
theorem behind (h : K.Leads fit b d x) (hle : K.Tracks → Marks.Le a b) : K.Leads fit a d x := by
  refine ⟨fun ht => (hle ht).trans (h.le ht), fun m hm hf => ?_⟩
  exact h.charted m hm fun ht => (hf ht).grown (.refl b m) (hle ht)

theorem tighten (h : K.Leads .loose a b x) : K.Leads .exact a b x :=
  h.refit h.le fun _ => .loosen

/-- Where every name has its value, an evaluation may start from any marks. -/
theorem again {c : Marks} (h : K.Leads .loose a b x) (ha : K.Tracks → Marks.Le [] a)
    (hb : K.Tracks → Marks.Le b d) (hc : K.Tracks → Marks.Le c d) : K.Leads fit c d x := by
  refine ⟨hc, fun m hm hf => ?_⟩
  exact (h.charted m hm fun ht => (hf ht).of_settled (ha ht)).mono hb

theorem pure (v : α) : K.Leads fit a a (pure v) :=
  ⟨fun _ => .refl a, fun _ hm _ => .pure hm v⟩

theorem bind [Nonempty α] (hx : K.Leads fit a b x) (hf : ∀ v, K.Leads fit b d (f v)) :
    K.Leads fit a d (x >>= f) := by
  obtain ⟨v⟩ := ‹Nonempty α›
  have hle := (hf v).le
  refine ⟨fun ht => (hx.le ht).trans (hle ht), fun m hm hfit => ?_⟩
  refine (hx.charted m hm hfit).bind hle fun v after hc hg => ?_
  exact (hf v).charted after hc fun ht => (hfit ht).grown (hg ht) (hx.le ht)

theorem andThen {x : Traced Value} {f : Value → Traced Value} (hx : K.Leads fit a b x)
    (hf : ∀ v, K.Leads fit b d (f v)) : K.Leads fit a d (Eval.andThen x f) := by
  refine hx.bind fun v => ?_
  split
  · exact (Leads.pure v).mono (hf v).le
  · exact hf v

/-- A step that gains names which the chart declares and which have their values afterwards. -/
theorem act {names : List String} {made : List FunctionLiteral} {step : Eval α}
    (hs : Gain names made step) (hle : K.Tracks → Marks.Le a b)
    (hn : ∀ name ∈ names, K.Declares name ∧ b.lookup name = some true)
    (hm : ∀ literal ∈ made, K.Knows literal) : K.Leads fit a b (liftM step) := by
  refine ⟨hle, fun m hc _ => ?_⟩
  have hleft : K.Covers (left (step m)) := hc.gained (hs m) (fun name h => (hn name h).1) hm
  refine ⟨?_, hleft, fun _ => .of_gains (hs m) fun name h => (hn name h).2⟩
  intro k hk
  rw [List.mem_singleton.mp hk]
  exact ⟨hleft, trivial⟩

theorem gain {step : Eval α} (hs : Gain [] [] step) : K.Leads fit a a (liftM step) :=
  act hs (fun _ => .refl a) (by simp) (by simp)

theorem quiet {step : Eval α} (hs : Quiet step) : K.Leads fit a a (liftM step) :=
  gain (.quiet hs)

/-- A step that binds a name which the chart declares. -/
theorem binds {name : String} {step : Eval α} (hn : K.Declares name) (hs : Gain [name] [] step) :
    K.Leads fit a ((name, true) :: a) (liftM step) := by
  refine act hs (fun _ => .define name a) ?_ (by simp)
  simpa using hn

theorem fault (reason : Fault) : K.Leads fit a a (Eval.fault reason) := .pure _

theorem note {event : Event} (h : ∀ m, (K.Tracks → Fits fit a m) → K.Comes (some event) m) :
    K.Leads fit a a (note event) := by
  refine ⟨fun _ => .refl a, fun m hm hfit => ?_⟩
  refine .behind ⟨hm, h m hfit⟩ (.pure hm ())

theorem inNewScope (hx : K.Leads .exact [] d x) : K.Leads fit a a (inNewScope x) := by
  refine ⟨fun _ => .refl a, fun m hm hfit => ?_⟩
  rw [inNewScope_traced]
  refine .behind ⟨hm, trivial⟩ (.behind ⟨hm.opened _, trivial⟩ ?_)
  exact .fresh hm (fun ht => (hfit ht).inside) hx.charted

theorem inCall {limit : Nat} {closure : Closure} {args : List Value}
    (ha : closure.literal.accepts args.length = true) (hk : K.Knows closure.literal)
    (hx : K.Leads .exact [] d x) : K.Leads fit a a (inCall limit closure args x) := by
  refine ⟨fun _ => .refl a, fun m hm hfit => ?_⟩
  have hcall : K.Meets ⟨some (.calls closure args), m⟩ := ⟨hm, ha, hk⟩
  have hhere : K.Meets ⟨none, m⟩ := ⟨hm, trivial⟩
  rcases Nat.lt_or_ge m.depth limit with hlt | hge
  · rw [inCall_granted hlt]
    refine .behind hcall (.behind hhere (.behind ⟨hm.opened _, trivial⟩ ?_))
    exact .called hm (fun ht => (hfit ht).inside) hx.charted
  · rw [inCall_refused hge]
    refine ⟨?_, hm, fun _ => .refl a m⟩
    simp only [List.forall_mem_cons]
    exact ⟨hcall, hhere, hhere, by simp⟩

end Chart.Leads

end ScriptLang
