-- What the reports of the checker say about a run of a program without imports. If no name that
-- hides a builtin function is found, then no state of the run binds such a name, and the name
-- stands for the builtin function wherever it is evaluated. If a name is found that is read in its
-- own initializer, then a run that reads it there has it not yet in its scope. Both are about the
-- names that programs bind: plugins of the host bind none, as the type `PluginFunction` assumes.
import ScriptLang.Proofs.ChartedRuns
import ScriptLang.Proofs.ParsedTrees

namespace ScriptLang

open Eval

/-- There are no imports in a node. -/
def Node.ImportFree (a : Node) : Prop :=
  a.Every fun b => ∀ path position, b ≠ .expr (.importFile path position)

/-- There are no imports in a variable that another one is read for. -/
theorem Node.importFree_var (name other : String) (position place : Position) :
    (statements [.var name (.identifier other place) position]).ImportFree := by
  have hread : (expr (.identifier other place)).ImportFree := .intro nofun nofun
  have hvar : (statement (.var name (.identifier other place) position)).ImportFree :=
    .intro nofun (List.forall_mem_singleton.mpr hread)
  have hnil : (statements []).ImportFree := .intro nofun nofun
  exact .intro nofun (List.forall_mem_cons.mpr ⟨hvar, List.forall_mem_singleton.mpr hnil⟩)

/-! ## What the checker reports -/

theorem Checker.bind_reports {name : String} (h : (Builtin.ofName? name).isSome = true)
    (position : Position) (c : Checker) :
    ⟨.shadowsBuiltin, name, position⟩ ∈ (c.bind name position).found := by
  simp [bind, h, report]

namespace Node

/-- What is found before a part of a node is found in the node. -/
theorem found_of_part {a b : Node} {c d : Checker} (hp : (b, d) ∈ a.parts c) {x : Diagnostic}
    (hx : x ∈ d.found) : x ∈ (a.check c).found := by
  obtain ⟨before, after, -, -, hafter⟩ := split hp
  exact hafter.kept x ((finds_check b d).kept x hx)

/-- A node that declares the name of a builtin function is reported. -/
theorem reports_declared {a : Node} {c : Checker} {name : String} (hn : name ∈ a.declares)
    (hb : (Builtin.ofName? name).isSome = true) :
    ∃ position, ⟨.shadowsBuiltin, name, position⟩ ∈ (a.check c).found := by
  cases a with
  | expr e =>
    cases e with
    | function literal position =>
      have hname : literal.name = some name := Option.mem_toList.mp hn
      refine ⟨position, found_of_part (.head _) ?_⟩
      rw [hname]
      exact Checker.bind_reports hb position c
    | _ => cases hn
  | parameters position ps =>
    cases ps with
    | nil => cases hn
    | cons p ps =>
      obtain rfl : name = p.name := List.mem_singleton.mp hn
      cases p with
      | required name =>
        refine ⟨position, found_of_part (.head _) ?_⟩
        exact Checker.bind_reports hb position c
      | defaulted name default =>
        refine ⟨position, found_of_part (.tail _ (.head _)) ?_⟩
        exact Checker.bind_reports hb position (default.check c)
  | statement s =>
    cases s with
    | var other value position =>
      obtain rfl : name = other := List.mem_singleton.mp hn
      refine ⟨position, found_of_part (.head _) ?_⟩
      rw [Checker.declare_found]
      exact Checker.bind_reports hb position c
    | enum other bs position =>
      obtain rfl : name = other := List.mem_singleton.mp hn
      exact ⟨position, Checker.bind_reports hb position _⟩
    | _ => cases hn
  | _ => cases hn

end Node

/-- The nodes without imports in which no hidden builtin function is found. -/
def Chart.clean : Chart where
  Visits a c := a.ImportFree ∧ ∀ x ∈ (a.check c).found, x.kind ≠ .shadowsBuiltin
  Tracks := False
  part := by
    rintro a b c d ⟨himports, hfound⟩ hp
    obtain ⟨before, after, -, -, hafter⟩ := Node.split hp
    exact ⟨himports.child (Node.mem_children hp), fun x hx => hfound x (hafter.kept x hx)⟩
  imports := by
    rintro path position c ⟨himports, -⟩
    exact absurd rfl (himports.here path position)

theorem Chart.clean_declares {name : String} (h : Chart.clean.Declares name) :
    Builtin.ofName? name = none := by
  obtain ⟨a, c, ⟨-, hfound⟩, hn⟩ := h
  cases hb : Builtin.ofName? name with
  | none => rfl
  | some b =>
    obtain ⟨position, hx⟩ := Node.reports_declared (c := c) hn (by rw [hb]; rfl)
    exact absurd rfl (hfound _ hx)

/-! ## What a name stands for -/

theorem Scopes.get?_eq_none {s : Scopes} {name : String}
    (h : ∀ id, ¬s.containsLocal id name = true) (id : ScopeId) : s.get? id name = none := by
  unfold get?
  cases howner : s.owner? id name with
  | none => rfl
  | some owner => exact absurd (containsLocal_of_ownerWithin howner) (h owner)

/-- A name that no scope binds stands for its builtin function. -/
theorem Eval.lookup_builtin {name : String} {b : Builtin} (hb : Builtin.ofName? name = some b)
    {m : Machine} (hm : ∀ id, ¬m.Binds id name) : lookup name m = .ok (.builtin b) m := by
  have hunbound : lookup? name m = .ok none m := by
    unfold lookup?
    rw [Scopes.get?_eq_none hm m.scope]
  unfold lookup
  rw [bind_run, hunbound]
  dsimp only
  rw [hb]
  rfl

/-- Where the checker finds no hidden builtin function in a program without imports, no state of a
run binds the name of a builtin function, and evaluating such a name gives the builtin function
and changes nothing. -/
theorem builtins_stay_visible (host : Host) (sink : Sink) (seed : UInt64) (fuel : Nat)
    {p : Program} (hp : (Node.statements p).ImportFree)
    (hclean : ∀ x ∈ checkProgram p, x.kind ≠ .shadowsBuiltin) :
    ∀ k ∈ moments host fuel p (Machine.start host sink seed),
      ∀ name b, Builtin.ofName? name = some b →
        (∀ id, ¬k.machine.Binds id name) ∧
        ∀ level position, (expr host (level + 1) (.identifier name position) : Eval Value)
          k.machine = .ok (.builtin b) k.machine := by
  intro k hk name b hb
  have hmeets := Chart.moments_meet (K := .clean) host fuel ⟨hp, hclean⟩
    (.start host sink seed) False.elim k hk
  have hfree : ∀ id, ¬k.machine.Binds id name := by
    intro id hbinds
    have hnone := Chart.clean_declares (hmeets.covers.names id name hbinds)
    rw [hnone] at hb
    cases hb
  refine ⟨hfree, fun level position => ?_⟩
  unfold expr
  rw [nested_run]
  exact lookup_builtin hb hfree

/-- A variable with a name of its own leaves the builtin function in its initializer alone. -/
theorem len_stays_visible :
    let host := Host.plain
    let read : Expr := .identifier "len" ⟨1, 14⟩
    let p : Program := [.var "length" read .start]
    let m := Machine.start host .unlimited 0
    (Node.statements p).ImportFree ∧ (∀ x ∈ checkProgram p, x.kind ≠ .shadowsBuiltin) ∧
      ∃ k ∈ moments host 9 p m, k.event = some (.evaluates read) ∧
        (∀ id, ¬k.machine.Binds id "len") ∧
        (expr host 1 read : Eval Value) k.machine = .ok (.builtin .len) k.machine := by
  intro host read p m
  have hp : (Node.statements p).ImportFree := Node.importFree_var _ _ _ _
  have hclean : ∀ x ∈ checkProgram p, x.kind ≠ .shadowsBuiltin := by decide
  have hk : ⟨some (.evaluates read), m⟩ ∈ moments host 9 p m := .tail _ (.tail _ (.head _))
  have hvisible := builtins_stay_visible host .unlimited 0 9 hp hclean _ hk "len" .len rfl
  exact ⟨hp, hclean, _, hk, rfl, hvisible.1, hvisible.2 0 ⟨1, 14⟩⟩

/-! ## Names that are read in their own initializers -/

/-- The name that an evaluation reads where it comes to something, with its place: the name of a
variable, of a step, of an enum, or of the target of an assignment. -/
def Event.read? : Event → Option (String × Position)
  | .evaluates (.identifier name position) => some (name, position)
  | .evaluates (.step _ name position) => some (name, position)
  | .evaluates (.scopeAccess name _ position) => some (name, position)
  | .evaluates (.assign (.identifier name position) _ _ _) => some (name, position)
  | .executes (.assignment (.identifier name position) _ _ _) => some (name, position)
  | _ => none

/-- What is reported of a name that is read too early. -/
def Diagnostic.selfReference (read : String × Position) : Diagnostic :=
  ⟨.selfReference, read.1, read.2⟩

/-- A name that is read and reported has no value yet. -/
theorem Checker.lookup_of_reported {name : String} {position : Position} {c : Checker}
    (hnew : Diagnostic.selfReference (name, position) ∈ (c.read name position).found)
    (hold : Diagnostic.selfReference (name, position) ∉ c.found) :
    c.marks.lookup name = some false := by
  by_cases h : c.marks.lookup name = some false
  · exact h
  · unfold read at hnew
    rw [if_neg h] at hnew
    exact absurd hnew hold

/-- The nodes without imports whose reads are at places of their own, where what is reported of
them is found in them and not before them. -/
def Chart.placed (reported : List Diagnostic) : Chart where
  Visits a c := a.ImportFree ∧ a.reads.Nodup ∧ ∀ r ∈ a.reads, .selfReference r ∈ reported →
    .selfReference r ∈ (a.check c).found ∧ .selfReference r ∉ c.found
  Tracks := True
  part := by
    rintro a b c d ⟨himports, hnodup, hfound⟩ hp
    obtain ⟨before, after, hreads, hbefore, hafter⟩ := Node.split hp
    rw [hreads] at hnodup hfound
    obtain ⟨-, hinner, hapart⟩ := List.nodup_append.mp hnodup
    obtain ⟨hb, -, hbehind⟩ := List.nodup_append.mp hinner
    refine ⟨himports.child (Node.mem_children hp), hb, fun r hr hreported => ?_⟩
    obtain ⟨hnew, hold⟩ := hfound r (by simp [hr]) hreported
    constructor
    · rcases hafter.new _ hnew with h | h | h
      · exact h
      · cases h
      · exact absurd rfl (hbehind r hr r h)
    · intro hd
      rcases hbefore.new _ hd with h | h | h
      · exact hold h
      · cases h
      · exact absurd rfl (hapart r h r (List.mem_append_left _ hr))
  imports := by
    rintro path position c ⟨himports, -⟩
    exact absurd rfl (himports.here path position)

/-- A run that comes to a node which reads a reported name does not have it in its scope. -/
theorem Chart.placed_unbound {reported : List Diagnostic} {a : Node} {m : Machine}
    {name : String} {position : Position} (h : (Chart.placed reported).Arrives a m)
    (hreads : a.reads = [(name, position)])
    (hcheck : ∀ c, a.check c = c.read name position)
    (hr : Diagnostic.selfReference (name, position) ∈ reported) : ¬m.Binds m.scope name := by
  obtain ⟨c, ⟨-, -, hfound⟩, hfits⟩ := h
  obtain ⟨hnew, hold⟩ := hfound (name, position) (by simp [hreads]) hr
  rw [hcheck] at hnew
  intro hbinds
  exact (hfits trivial).names name hbinds (Checker.lookup_of_reported hnew hold)

/-- A run that comes to a node comes to the part that is looked at first, as the target of an
assignment is. -/
theorem Chart.arrives_part {K : Chart} {a b : Node} {m : Machine} (h : K.Arrives a m)
    (hp : ∀ c, (b, c) ∈ a.parts c) : K.Arrives b m := by
  obtain ⟨c, hv, hfits⟩ := h
  exact ⟨c, K.part hv (hp c), hfits⟩

theorem Chart.placed_read {reported : List Diagnostic} {event : Event} {m : Machine}
    {name : String} {position : Position} (h : (Chart.placed reported).Comes (some event) m)
    (hread : event.read? = some (name, position))
    (hr : Diagnostic.selfReference (name, position) ∈ reported) : ¬m.Binds m.scope name := by
  unfold Event.read? at hread
  split at hread
  · cases hread
    exact placed_unbound h rfl (fun _ => rfl) hr
  · cases hread
    exact placed_unbound h rfl (fun _ => rfl) hr
  · cases hread
    exact placed_unbound h rfl (fun _ => rfl) hr
  · cases hread
    exact placed_unbound (arrives_part h fun _ => .head _) rfl (fun _ => rfl) hr
  · cases hread
    exact placed_unbound (arrives_part h fun _ => .head _) rfl (fun _ => rfl) hr
  · cases hread

theorem Fits.start (host : Host) (sink : Sink) (seed : UInt64) :
    Fits .exact [] (Machine.start host sink seed) := by
  refine ⟨by simp [Machine.start, Scopes.newGlobal], fun name hb => ?_⟩
  cases Machine.not_binds_start host sink seed _ name hb

/-- A self-reference is never reported by mistake. The names that a parsed program reads stand at
places of their own, and wherever they do in a program without imports, a run that reads a name at
a place where it is reported comes there while the innermost scope does not bind the name. -/
theorem self_references_are_unbound (host : Host) (sink : Sink) (seed : UInt64) (fuel : Nat) :
    (∀ source, (Node.statements (parseProgram source).program).reads.Nodup) ∧
    ∀ p : Program, (Node.statements p).ImportFree → (Node.statements p).reads.Nodup →
      ∀ k ∈ moments host fuel p (Machine.start host sink seed),
        ∀ event name position, k.event = some event → event.read? = some (name, position) →
          ⟨.selfReference, name, position⟩ ∈ checkProgram p →
            ¬k.machine.Binds k.machine.scope name := by
  refine ⟨nodup_reads_program, fun p hp hn k hk event name position hevent hread hr => ?_⟩
  have hstart : (Chart.placed (checkProgram p)).Visits (.statements p) .start :=
    ⟨hp, hn, fun r _ hreported => ⟨hreported, List.not_mem_nil⟩⟩
  have hmeets := Chart.moments_meet host fuel hstart (.start host sink seed)
    (fun _ => .start host sink seed) k hk
  have hcomes := hmeets.comes
  rw [hevent] at hcomes
  exact Chart.placed_read hcomes hread hr

/-- A variable that is read in its own initializer is not bound there. -/
theorem own_initializer_is_unbound :
    let host := Host.plain
    let read : Expr := .identifier "x" ⟨1, 9⟩
    let p : Program := [.var "x" read .start]
    let m := Machine.start host .unlimited 0
    (Node.statements p).ImportFree ∧ (Node.statements p).reads.Nodup ∧
      ⟨.selfReference, "x", ⟨1, 9⟩⟩ ∈ checkProgram p ∧
      ∃ k ∈ moments host 9 p m, k.event = some (.evaluates read) ∧
        ¬k.machine.Binds k.machine.scope "x" := by
  intro host read p m
  have hp : (Node.statements p).ImportFree := Node.importFree_var _ _ _ _
  have hn : (Node.statements p).reads.Nodup := by decide
  have hr : ⟨.selfReference, "x", ⟨1, 9⟩⟩ ∈ checkProgram p := by decide
  have hk : ⟨some (.evaluates read), m⟩ ∈ moments host 9 p m :=
    .tail _ (.tail _ (.head _))
  refine ⟨hp, hn, hr, _, hk, rfl, ?_⟩
  exact (self_references_are_unbound host .unlimited 0 9).2 p hp hn _ hk _ "x" ⟨1, 9⟩ rfl rfl hr

end ScriptLang
