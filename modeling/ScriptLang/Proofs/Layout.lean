-- Layout carries no meaning. Two texts with the same tokens, whatever blanks, lines and comments
-- stand between them, have the same errors or the same program up to places, and running them
-- cannot be told apart.
import Mathlib
import ScriptLang.Session
import ScriptLang.Proofs.ParallelReading
import ScriptLang.Proofs.ParallelRuns

namespace ScriptLang

namespace Parser

variable {ts ts' : List Token}

/-! ## Turns of the loop over statements -/

theorem statements_at_end (turns : Nat) (recovering : Bool)
    (h : headKind (afterSemicolons ts) = .endOfText) :
    statements (turns + 1) recovering ts = ⟨[], []⟩ := by
  unfold statements
  dsimp only
  rw [h]

theorem statements_at_brace (turns : Nat) (h : headKind (afterSemicolons ts) = .rightBrace) :
    statements (turns + 1) true ts = statements turns true ((afterSemicolons ts).drop 1) := by
  conv => lhs; unfold statements
  dsimp only
  rw [h]

/-- A turn that reads a statement. -/
theorem statements_succ (turns : Nat) {recovering : Bool}
    (hend : headKind (afterSemicolons ts) ≠ .endOfText)
    (hbrace : ¬(recovering = true ∧ headKind (afterSemicolons ts) = .rightBrace)) :
    statements (turns + 1) recovering ts =
      match parseStatement (afterSemicolons ts) with
      | .ok first rest =>
        ⟨first :: (statements turns false rest).program, (statements turns false rest).errors⟩
      | .error error rest =>
        ⟨(statements turns true (synchronized rest)).program,
          error :: (statements turns true (synchronized rest)).errors⟩ := by
  conv => lhs; unfold statements
  dsimp only
  split
  · contradiction
  · rename_i hk
    exact absurd ⟨rfl, hk⟩ hbrace
  · rfl

/-! ## Two texts with the same tokens -/

theorem beside_of_shapes (h : ts.map Token.shape = ts'.map Token.shape) : Beside none ts ts' := by
  induction ts generalizing ts' with
  | nil =>
    cases ts' with
    | nil => exact .nil rfl
    | cons t' ts' => cases h
  | cons t ts ih =>
    cases ts' with
    | nil => cases h
    | cons t' ts' =>
      obtain ⟨hshape, hrest⟩ := List.cons.inj h
      exact .cons hshape (absurd rfl) (ih hrest)

theorem Beside.drop_one (h : Beside none ts ts') : Beside none (ts.drop 1) (ts'.drop 1) := by
  cases h with
  | nil h => exact .nil h
  | seam h => cases h
  | cons _ _ hs => exact hs

theorem Beside.synchronized (h : Beside none ts ts') :
    Beside none (synchronized ts) (synchronized ts') := by
  induction h with
  | nil h => exact .nil h
  | seam h => cases h
  | cons hshape hgoes hs ih =>
    unfold Parser.synchronized
    rw [kind_eq_of_shape hshape]
    split
    · exact hs
    · exact .cons hshape hgoes hs
    · exact .cons hshape hgoes hs
    · exact ih

theorem Beside.headKind_eq (h : Beside none ts ts') : headKind ts = headKind ts' := by
  rcases h.cases_head with hkind | ⟨j, -, -, -, hjoint, -⟩
  · exact hkind
  · cases hjoint

/-- Results of reading two texts: programs that are alike, and errors for the same causes. -/
structure SameReading (r r' : ParseResult) : Prop where
  program : SameStatements r.program r'.program
  causes : r.errors.map ParseError.cause = r'.errors.map ParseError.cause

theorem SameReading.errors_eq_nil {r r' : ParseResult} (h : SameReading r r')
    (hr : r.errors = []) : r'.errors = [] := by
  have hcauses := h.causes
  rw [hr] at hcauses
  exact List.map_eq_nil_iff.mp hcauses.symm

/-- The loop over statements goes the same way over both texts, through errors too. -/
theorem statements_beside (turns : Nat) (recovering : Bool) (h : Beside none ts ts') :
    SameReading (statements turns recovering ts) (statements turns recovering ts') := by
  induction turns generalizing recovering ts ts' with
  | zero => exact ⟨.noStatements, rfl⟩
  | succ turns ih =>
    have hafter : Beside none (afterSemicolons ts) (afterSemicolons ts') := by
      rcases h.afterSemicolons with hafter | ⟨j, _, _, hjoint, _⟩
      · exact hafter
      · cases hjoint
    have hkind := hafter.headKind_eq
    by_cases hend : headKind (afterSemicolons ts) = .endOfText
    · have hend' : headKind (afterSemicolons ts') = .endOfText := hkind ▸ hend
      rw [statements_at_end turns recovering hend, statements_at_end turns recovering hend']
      exact ⟨.noStatements, rfl⟩
    by_cases hbrace : recovering = true ∧ headKind (afterSemicolons ts) = .rightBrace
    · obtain ⟨rfl, hbrace⟩ := hbrace
      rw [statements_at_brace turns hbrace, statements_at_brace turns (hkind ▸ hbrace)]
      exact ih true hafter.drop_one
    · rw [statements_succ turns hend hbrace, statements_succ turns (hkind ▸ hend) (hkind ▸ hbrace)]
      rcases parseStatement_beside hafter with hboth | ⟨j, _, _, _, _, hjoint, _⟩
      · generalize parseStatement (afterSemicolons ts) = r at hboth
        generalize parseStatement (afterSemicolons ts') = r' at hboth
        cases hboth with
        | ok hs hrest =>
          have hmore := ih false hrest
          exact ⟨.statements hs hmore.program, hmore.causes⟩
        | error _ hcause hrest =>
          have hmore := ih true hrest.synchronized
          exact ⟨hmore.program, congrArg₂ List.cons hcause hmore.causes⟩
        | failed hjoint => exact absurd rfl hjoint
      · cases hjoint

theorem parseTokens_beside (h : Beside none ts ts') :
    SameReading (parseTokens ts) (parseTokens ts') := by
  have hlength : ts.length = ts'.length := h.room
  unfold parseTokens
  rw [hlength]
  exact statements_beside _ false h

end Parser

/-! ## Runs that cannot be told apart -/

/-- A function without the places in its text. -/
def Closure.unplaced (closure : Closure) : Closure :=
  { closure with literal := closure.literal.unplaced }

/-- Definitions without the places in the texts of functions. -/
def Definitions.unplaced (d : Definitions) : Definitions :=
  { d with functions := d.functions.map Closure.unplaced }

theorem Closure.SameTable.unplaced_eq {P : Position → Position → Prop} {fs gs : Array Closure}
    (h : SameTable P fs gs) : fs.map Closure.unplaced = gs.map Closure.unplaced := by
  refine Array.ext_getElem? fun i => ?_
  rw [Array.getElem?_map, Array.getElem?_map]
  have hi := h.alike i
  generalize fs[i]? = o at hi
  generalize gs[i]? = o' at hi
  cases hi with
  | none => rfl
  | @some c c' hc =>
    obtain ⟨hscope, p, q, hl⟩ := hc
    have hliteral : c.literal.unplaced = c'.literal.unplaced :=
      (Expr.function.inj (Node.expr.inj hl.unplaced_eq)).1
    simp only [Option.map_some, Closure.unplaced, hscope, hliteral]

/-- Two runs come to the same end: the same result, the same text for every value, the same output,
the same scopes and collections, functions and enums that are equal up to places, and the same
random numbers and readings of the clock to come. -/
structure SameEnd (r r' : Except Failure Value × Session) : Prop where
  result : r.1 = r'.1
  host : r.2.host = r'.2.host
  text : r.2.machine.store.render = r'.2.machine.store.render
  sink : r.2.machine.sink = r'.2.machine.sink
  scopes : r.2.machine.store.scopes = r'.2.machine.store.scopes
  frame : Eval.Frame.of r.2.machine = Eval.Frame.of r'.2.machine
  heap : r.2.machine.store.heap = r'.2.machine.store.heap
  definitions : r.2.machine.store.definitions.unplaced = r'.2.machine.store.definitions.unplaced
  inputs : r.2.machine.inputs = r'.2.machine.inputs

theorem SameEnd.of_alike {P : Position → Position → Prop} (result : Except Failure Value)
    (host : Host) {m m' : Machine} (h : m.Alike P m') :
    SameEnd (result, ⟨host, m⟩) (result, ⟨host, m'⟩) := by
  obtain ⟨functions, h⟩ := h
  have hrender := Definitions.render_withFunctions h.headings_eq
  have hdefinitions : m.store.definitions.unplaced =
      (m.store.definitions.withFunctions functions).unplaced :=
    congrArg (fun fs => { m.store.definitions with functions := fs }) h.unplaced_eq
  exact ⟨rfl, rfl, (congrFun hrender m.store.heap).symm, rfl, rfl, rfl, rfl, hdefinitions, rfl⟩

/-- Programs that are alike come to the same end in every session. -/
theorem Session.sameEnd_runProgram {p p' : Program} (h : Parser.SameStatements p p') (fuel : Nat)
    (session : Session) : SameEnd (session.runProgram fuel p) (session.runProgram fuel p') := by
  obtain ⟨host, m⟩ := session
  let D := Difference.ofPlaces host
  have hagree := Difference.Matches.program (D := D) fuel h m m (.refl D.places_refl m)
  unfold Session.runProgram
  dsimp only
  change D.Agrees Eq ((Eval.program host fuel p : Eval Value) m)
    ((Eval.program host fuel p' : Eval Value) m) at hagree
  generalize (Eval.program host fuel p : Eval Value) m = r at hagree
  generalize (Eval.program host fuel p' : Eval Value) m = r' at hagree
  cases hagree with
  | ok hv hm =>
    subst hv
    exact .of_alike _ host hm
  | stop reason hm => cases reason <;> exact .of_alike _ host hm
  | overflow hlt => exact absurd hlt (Nat.lt_irrefl _)

theorem Session.run_of_read {source : String} (h : (parseProgram source).errors = []) (fuel : Nat)
    (session : Session) :
    session.run fuel source = session.runProgram fuel (parseProgram source).program := by
  unfold Session.run
  dsimp only
  rw [h]
  rfl

/-- Texts whose tokens agree in kind and literal mean the same. Either both have errors, for the
same causes in the same order, or both have programs that are equal up to places, and running one or
the other in any session comes to the same end. -/
theorem layout_keeps_meaning {a b : String}
    (h : (tokenize a).map Token.shape = (tokenize b).map Token.shape) :
    ((parseProgram a).errors ≠ [] ∧
      (parseProgram a).errors.map ParseError.cause =
        (parseProgram b).errors.map ParseError.cause) ∨
    ((parseProgram a).errors = [] ∧ (parseProgram b).errors = [] ∧
      unplacedStatements (parseProgram a).program = unplacedStatements (parseProgram b).program ∧
      ∀ (fuel : Nat) (session : Session), SameEnd (session.run fuel a) (session.run fuel b)) := by
  have hread : Parser.SameReading (parseProgram a) (parseProgram b) :=
    Parser.parseTokens_beside (Parser.beside_of_shapes h)
  by_cases ha : (parseProgram a).errors = []
  · have hb := hread.errors_eq_nil ha
    refine .inr ⟨ha, hb, hread.program.unplacedStatements_eq, fun fuel session => ?_⟩
    rw [Session.run_of_read ha, Session.run_of_read hb]
    exact Session.sameEnd_runProgram hread.program fuel session
  · exact .inl ⟨ha, hread.causes⟩

/-- A comment, line breaks and blanks do not count: both texts write a line and give `null`. -/
theorem comment_and_lines_do_not_count :
    let a := "puts(1+2)"
    let b := "puts(/* one */\n 1\n + 2)"
    let session := Session.start Host.plain .unlimited 0
    a ≠ b ∧ (tokenize a).map Token.shape = (tokenize b).map Token.shape ∧
      (∀ (fuel : Nat) (session : Session), SameEnd (session.run fuel a) (session.run fuel b)) ∧
      (session.run 9 b).1 = .ok .null ∧
      (session.run 9 b).2.machine.sink.written = "3\n".toUTF8 := by
  intro a b session
  have h : (tokenize a).map Token.shape = (tokenize b).map Token.shape := by cbv
  have hread : (parseProgram a).errors = [] := by cbv
  let p : Program :=
    [.expression (.call (.identifier "puts" ⟨1, 1⟩)
      [.binary .add (.integer 1 ⟨1, 6⟩) (.integer 2 ⟨1, 8⟩) ⟨1, 7⟩] ⟨1, 5⟩) ⟨1, 1⟩]
  have hprogram : (parseProgram a).program = p := by cbv
  have hrun : session.run 9 a = session.runProgram 9 p := by
    rw [Session.run_of_read hread, hprogram]
  rcases layout_keeps_meaning h with ⟨herrors, -⟩ | ⟨-, -, -, hruns⟩
  · exact absurd hread herrors
  · have hsame := hruns 9 session
    refine ⟨by decide, h, hruns, ?_, ?_⟩
    · rw [← hsame.result, hrun]
      rfl
    · rw [← hsame.sink, hrun]
      rfl

end ScriptLang
