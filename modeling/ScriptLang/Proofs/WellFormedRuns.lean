-- Runs of parsed programs. Everything that such a run comes to is well formed, whatever it
-- imports and whatever ran before it: what is deleted is an element, what is assigned to is a
-- name or an element, and no call leaves a required parameter without its argument.
import ScriptLang.Proofs.ChartedRuns
import ScriptLang.Proofs.ParsedTrees

namespace ScriptLang

open Eval

/-! ## Parameters without arguments -/

/-- As many arguments as a function takes are enough for its required parameters. -/
theorem FunctionLiteral.WellFormed.optional {literal : FunctionLiteral} (h : literal.WellFormed)
    {given : Nat} (ha : literal.accepts given = true) :
    ∀ p ∈ literal.parameters.drop given, p.isRequired = false := by
  obtain ⟨hleast, hmost⟩ : literal.required ≤ given ∧ given ≤ literal.parameters.length := by
    simpa [accepts] using ha
  have horder := h.order
  rw [← List.take_append_drop given literal.parameters] at horder
  intro q hq
  by_contra hrequired
  rw [Bool.not_eq_false] at hrequired
  -- All parameters before a required one are required, so there are more of them than arguments.
  have hbefore : ∀ p ∈ literal.parameters.take given, p.isRequired = true := fun p hp =>
    (List.pairwise_append.mp horder).2.2 p hp q hq hrequired
  have hbehind : 0 < ((literal.parameters.drop given).filter Parameter.isRequired).length :=
    List.length_pos_of_mem (List.mem_filter.mpr ⟨hq, hrequired⟩)
  have hcount : literal.required = given +
      ((literal.parameters.drop given).filter Parameter.isRequired).length := by
    unfold required
    conv_lhs => rw [← List.take_append_drop given literal.parameters]
    rw [List.filter_append, List.filter_eq_self.mpr hbefore, List.length_append,
      List.length_take, Nat.min_eq_left hmost]
  omega

/-! ## Runs -/

/-- The nodes all of whose parts are well formed. Programs that are imported are among them. -/
def Chart.wellFormed : Chart where
  Visits a _ := a.Every Node.WellFormed
  Tracks := False
  part h hp := h.child (Node.mem_children hp)
  imports _ := ⟨id, fun source => ⟨.start, (parsed_program source).wellFormed _ List.mem_cons_self⟩⟩

/-- The states that runs of programs leave behind, one after the other, from a fresh state on. -/
inductive Reached (host : Host) : Machine → Prop
  | start (sink : Sink) (seed : UInt64) : Reached host (Machine.start host sink seed)
  | run {m : Machine} (h : Reached host m) (fuel : Nat) (source : String) :
    Reached host (left ((program host fuel (parseProgram source).program : Eval Value) m))

theorem Reached.covers {host : Host} {m : Machine} (h : Reached host m) :
    Chart.wellFormed.Covers m := by
  induction h with
  | start sink seed => exact .start host sink seed
  | run h fuel source ih =>
    have hparsed := (parsed_program source).wellFormed _ List.mem_cons_self
    exact Chart.covers_left (c := .start) host fuel hparsed ih False.elim

/-- What an evaluation comes to is what the grammar promises. -/
def Event.WellFormed : Event → Prop
  | .executes (.delete target _) => target.isIndex = true
  | .executes (.assignment target _ _ _) => Parser.isTarget target = true
  | .evaluates (.assign target _ _ _) => Parser.isTarget target = true
  | .calls closure args =>
    ∀ p ∈ closure.literal.parameters.drop args.length, p.isRequired = false
  | _ => True

theorem Chart.wellFormed_comes {event : Event} {m : Machine}
    (h : Chart.wellFormed.Comes (some event) m) : event.WellFormed := by
  cases event with
  | evaluates e =>
    obtain ⟨c, hv, -⟩ := h
    have hw := hv.here
    cases e with
    | assign target op value position => exact hw
    | _ => trivial
  | executes s =>
    obtain ⟨c, hv, -⟩ := h
    have hw := hv.here
    cases s with
    | delete target position => exact hw
    | assignment target op value position => exact hw
    | _ => trivial
  | calls closure args =>
    obtain ⟨haccepts, position, c, hv⟩ := h
    exact FunctionLiteral.WellFormed.optional hv.here haccepts

/-- Every node of a parsed program is well formed, also where there are errors in the text. So a
run of a parsed program, from a fresh state or behind other programs, only deletes elements, only
assigns to names and elements, and calls no function without the arguments of its required
parameters. -/
theorem parsed_programs_stay_well_formed (host : Host) :
    (∀ source, (Node.statements (parseProgram source).program).Every Node.WellFormed) ∧
    ∀ m, Reached host m → ∀ fuel source,
      ∀ k ∈ moments host fuel (parseProgram source).program m,
        ∀ event, k.event = some event → event.WellFormed := by
  have hparsed (source : String) :
      (Node.statements (parseProgram source).program).Every Node.WellFormed :=
    (parsed_program source).wellFormed _ List.mem_cons_self
  refine ⟨hparsed, fun m hm fuel source k hk event hevent => ?_⟩
  have hmeets := Chart.moments_meet (K := .wellFormed) (c := .start) host fuel (hparsed source)
    hm.covers False.elim k hk
  have hcomes := hmeets.comes
  rw [hevent] at hcomes
  exact Chart.wellFormed_comes hcomes

/-- The call that an event is, if it is one. -/
def Event.call? : Event → Option (Closure × List Value)
  | .calls closure args => some (closure, args)
  | _ => none

theorem Event.eq_of_call? {event : Event} {call : Closure × List Value}
    (h : event.call? = some call) : event = .calls call.1 call.2 := by
  cases event with
  | calls closure args =>
    cases h
    rfl
  | _ => cases h

/-- A call that leaves out the parameter with a default. -/
theorem call_leaves_out_default :
    let host := Host.plain
    let source := "function(a, b = 1) \x7b\x7d(2)"
    let m := Machine.start host .unlimited 0
    Reached host m ∧ ∃ k ∈ moments host 9 (parseProgram source).program m, ∃ closure args,
      k.event = some (.calls closure args) ∧ closure.literal.parameters.length = 2 ∧
        args.length = 1 ∧ Event.WellFormed (.calls closure args) := by
  intro host source m
  have hm : Reached host m := .start .unlimited 0
  have hcalls : ((moments host 9 (parseProgram source).program m).any fun k =>
      (k.event.bind Event.call?).any fun call =>
        call.1.literal.parameters.length == 2 && call.2.length == 1) = true := by cbv
  obtain ⟨k, hk, hcall⟩ := List.any_eq_true.mp hcalls
  obtain ⟨call, hsome, hlengths⟩ := (Option.any_eq_true _ _).mp hcall
  obtain ⟨event, hevent, hcall⟩ := Option.bind_eq_some_iff.mp hsome
  obtain rfl := Event.eq_of_call? hcall
  have hw := (parsed_programs_stay_well_formed host).2 m hm 9 source k hk _ hevent
  simp only [Bool.and_eq_true, beq_iff_eq] at hlengths
  exact ⟨hm, k, hk, call.1, call.2, hevent, hlengths.1, hlengths.2, hw⟩

end ScriptLang
