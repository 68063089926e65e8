-- A program can be fed in pieces. A line feed and a semicolon join two texts without errors to a
-- text with the statements of both, and running that is running one after the other.
import ScriptLang.Proofs.CleanReading
import ScriptLang.Proofs.JoinedTexts

namespace ScriptLang

/-! ## Reading the joined text -/

namespace Parser

theorem clean_of_read {source : String} (h : (parseProgram source).errors = []) :
    Clean (tokenize source) (parseProgram source).program := by
  refine (parseTokens_eq_iff (lexed_tokenize source)).mp ?_
  rw [← h]
  rfl

theorem legal_of_read {source : String} (h : (parseProgram source).errors = []) :
    ∀ t ∈ tokenize source, t.kind ≠ .illegal := by
  have hclean := clean_of_read h
  rw [tokenize_eq] at hclean ⊢
  have hlegal := hclean.legal (kind_ne_endOfText .start source.toList)
  intro t ht
  rcases List.mem_append.mp ht with hmem | hmem
  · exact hlegal t hmem
  · obtain rfl := List.mem_singleton.mp hmem
    exact TokenKind.noConfusion

/-- The joined text has no errors, and the statements of both texts. -/
theorem sameStatements_joined {a b : String} (ha : (parseProgram a).errors = [])
    (hb : (parseProgram b).errors = []) (hclosed : endsInComment a.toList = false) :
    (parseProgram (a ++ "\n;" ++ b)).errors = [] ∧
      SameStatements ((parseProgram a).program ++ (parseProgram b).program)
        (parseProgram (a ++ "\n;" ++ b)).program := by
  obtain ⟨before, semicolon, more, htokens, hbefore, hsemicolon, hmore⟩ :=
    tokenize_joined b (legal_of_read ha) hclosed
  have hlexed := lexed_tokenize (a ++ "\n;" ++ b)
  -- Behind the semicolon stand the tokens of `b`, at other places.
  have hread := parseTokens_beside (beside_of_shapes hmore.symm)
  have herrors : (parseTokens more).errors = [] := hread.errors_eq_nil hb
  have hclean : Clean more (parseTokens more).program := by
    refine (parseTokens_eq_iff fun t ht => hlexed t ?_).mp (by rw [← herrors])
    rw [htokens]
    exact List.mem_append_right _ (List.mem_cons_of_mem _ ht)
  -- Before it stand the tokens of `a`, up to its end.
  let j : Joint := ⟨.endOfText, more, .inl rfl⟩
  have hbeside : Beside (some j) (tokenize a) (tokenize (a ++ "\n;" ++ b)) := by
    rw [htokens, tokenize_eq]
    exact beside_seam hbefore.symm (kind_ne_endOfText _ _) rfl hsemicolon (Nat.zero_le _)
  obtain ⟨-, p, hsame, hall⟩ := (clean_of_read ha).beside hbeside
  have hjoined : parseProgram (a ++ "\n;" ++ b) = ⟨p ++ (parseTokens more).program, []⟩ :=
    (parseTokens_eq_iff hlexed).mpr (hall _ hclean)
  rw [hjoined]
  exact ⟨rfl, hsame.append_statements hread.program⟩

end Parser

/-! ## Running one program after the other -/

namespace Eval

/-- Statements that all complete: none of them gives an error, a return or a break, and none ends
the run. They leave the state `after`. -/
inductive Completes (host : Host) (fuel : Nat) : Program → Machine → Machine → Prop
  | nil (m : Machine) : Completes host fuel [] m m
  | cons {s : Statement} {p : Program} {m between after : Machine} {v : Value}
      (h : (statement (expr host fuel) s : Eval Value) m = .ok v between)
      (hplain : v.isSignal = false) (hrest : Completes host fuel p between after) :
      Completes host fuel (s :: p) m after

variable {host : Host} {fuel : Nat} {p q : Program} {m after : Machine}

theorem statements_cons_run (last : Value) (s : Statement) (p : Program) (m : Machine) :
    (statements (expr host fuel) last (s :: p) : Eval Value) m =
      match (statement (expr host fuel) s : Eval Value) m with
      | .ok v between =>
        if v.isSignal then .ok v between
        else (statements (expr host fuel) v p : Eval Value) between
      | .error stop between => .error stop between := by
  conv => lhs; unfold statements
  rw [bind_run]
  cases (statement (expr host fuel) s : Eval Value) m with
  | error stop between => rfl
  | ok v between =>
    dsimp only
    split <;> rfl

/-- Behind statements that complete the run goes on with what follows. -/
theorem Completes.goes_on (h : Completes host fuel p m after) {last : Value}
    (hlast : last.isSignal = false) :
    ∃ v : Value, v.isSignal = false ∧ ∀ q : Program,
      (statements (expr host fuel) last (p ++ q) : Eval Value) m =
        (statements (expr host fuel) v q : Eval Value) after := by
  induction h generalizing last with
  | nil m => exact ⟨last, hlast, fun q => rfl⟩
  | @cons s p m between after v h hplain hrest ih =>
    obtain ⟨w, hw, hall⟩ := ih hplain
    refine ⟨w, hw, fun q => ?_⟩
    rw [List.cons_append, statements_cons_run, h]
    simp only [hplain, Bool.false_eq_true, if_false]
    exact hall q

/-- Statements that do not all complete end the run, whatever follows. -/
theorem statements_append_of_not_completes (h : ¬∃ after, Completes host fuel p m after)
    (last : Value) (q : Program) :
    (statements (expr host fuel) last (p ++ q) : Eval Value) m =
      (statements (expr host fuel) last p : Eval Value) m := by
  induction p generalizing m last with
  | nil => exact absurd ⟨m, .nil m⟩ h
  | cons s p ih =>
    rw [List.cons_append, statements_cons_run, statements_cons_run]
    cases hs : (statement (expr host fuel) s : Eval Value) m with
    | error stop between => rfl
    | ok v between =>
      dsimp only
      by_cases hv : v.isSignal = true
      · rw [if_pos hv, if_pos hv]
      · rw [if_neg hv, if_neg hv]
        refine ih (fun ⟨after, hrest⟩ => h ⟨after, .cons hs ?_ hrest⟩) v
        simpa using hv

theorem program_run (p : Program) (m : Machine) :
    (program host fuel p : Eval Value) m =
      match (statements (expr host fuel) .null p : Eval Value) m with
      | .ok v after => .ok v.settled after
      | .error stop after => .error stop after := by
  unfold program
  rw [bind_run]
  cases (statements (expr host fuel) .null p : Eval Value) m <;> rfl

/-- A program that completes leaves its state to the next one. -/
theorem Completes.program (h : Completes host fuel p m after) (hq : q ≠ []) :
    (∃ v, (Eval.program host fuel p : Eval Value) m = .ok v after) ∧
      (Eval.program host fuel (p ++ q) : Eval Value) m =
        (Eval.program host fuel q : Eval Value) after := by
  obtain ⟨v, -, hall⟩ := h.goes_on (rfl : Value.null.isSignal = false)
  constructor
  · have halone := hall []
    rw [List.append_nil] at halone
    exact ⟨v.settled, by rw [program_run, halone]; rfl⟩
  · -- The value before the first of the statements that follow is lost.
    obtain ⟨s, rest, rfl⟩ := List.exists_cons_of_ne_nil hq
    rw [program_run, program_run, hall, statements_cons_run, statements_cons_run]

end Eval

namespace Session

/-- Every statement of the program completes in the session. -/
def Completes (session : Session) (fuel : Nat) (p : Program) : Prop :=
  ∃ after, Eval.Completes session.host fuel p session.machine after

theorem runProgram_append {session : Session} {fuel : Nat} {p q : Program}
    (h : session.Completes fuel p) (hq : q ≠ []) :
    session.runProgram fuel (p ++ q) = (session.runProgram fuel p).2.runProgram fuel q := by
  obtain ⟨host, m⟩ := session
  obtain ⟨after, h⟩ := h
  obtain ⟨⟨v, hp⟩, hall⟩ := h.program hq
  dsimp only at hp hall
  simp only [runProgram, hp, hall]

theorem runProgram_append_of_not_completes {session : Session} {fuel : Nat} {p : Program}
    (h : ¬session.Completes fuel p) (q : Program) :
    session.runProgram fuel (p ++ q) = session.runProgram fuel p := by
  obtain ⟨host, m⟩ := session
  have hall := Eval.statements_append_of_not_completes h .null q
  simp only [runProgram, Eval.program_run, hall]

end Session

/-- A program can be fed in pieces. Where two texts have no errors, the second one has a statement
and the first one does not end inside a comment, the joined text has no errors either, and the
statements of both up to places. Running it comes to the same end as running one text after the
other in one session, if all statements of the first text complete; otherwise it comes to the same
end as running the first text alone. -/
theorem pieces_run_like_whole {a b : String} (ha : (parseProgram a).errors = [])
    (hb : (parseProgram b).errors = []) (hstatement : (parseProgram b).program ≠ [])
    (hclosed : endsInComment a.toList = false) :
    (parseProgram (a ++ "\n;" ++ b)).errors = [] ∧
    unplacedStatements (parseProgram (a ++ "\n;" ++ b)).program =
      unplacedStatements (parseProgram a).program ++ unplacedStatements (parseProgram b).program ∧
    ∀ (fuel : Nat) (session : Session),
      (session.Completes fuel (parseProgram a).program →
        SameEnd ((session.run fuel a).2.run fuel b) (session.run fuel (a ++ "\n;" ++ b))) ∧
      (¬session.Completes fuel (parseProgram a).program →
        SameEnd (session.run fuel a) (session.run fuel (a ++ "\n;" ++ b))) := by
  obtain ⟨hjoined, hsame⟩ := Parser.sameStatements_joined ha hb hclosed
  refine ⟨hjoined, ?_, fun fuel session => ?_⟩
  · rw [← unplacedStatements_append, hsame.unplacedStatements_eq]
  · have hruns := Session.sameEnd_runProgram hsame fuel session
    rw [Session.run_of_read hjoined, Session.run_of_read ha, Session.run_of_read hb]
    constructor
    · intro hcompletes
      rwa [Session.runProgram_append hcompletes hstatement] at hruns
    · intro hstops
      rwa [Session.runProgram_append_of_not_completes hstops] at hruns

/-- A variable of the first piece is there in the second one, which writes it and gives it. -/
theorem variable_crosses_pieces :
    let session := Session.start Host.plain .unlimited 0
    let a := "var x = 1"
    let b := "puts(x); x"
    session.Completes 9 (parseProgram a).program ∧
      SameEnd ((session.run 9 a).2.run 9 b) (session.run 9 (a ++ "\n;" ++ b)) ∧
      (session.run 9 (a ++ "\n;" ++ b)).1 = .ok (.integer 1) ∧
      (session.run 9 (a ++ "\n;" ++ b)).2.machine.sink.written = "1\n".toUTF8 := by
  intro session a b
  let first : Program := [.var "x" (.integer 1 ⟨1, 9⟩) ⟨1, 1⟩]
  let second : Program :=
    [.expression (.call (.identifier "puts" ⟨1, 1⟩) [.identifier "x" ⟨1, 6⟩] ⟨1, 5⟩) ⟨1, 1⟩,
      .expression (.identifier "x" ⟨1, 10⟩) ⟨1, 10⟩]
  have hfirst : (parseProgram a).program = first := by cbv
  have hsecond : (parseProgram b).program = second := by cbv
  have ha : (parseProgram a).errors = [] := by cbv
  have hb : (parseProgram b).errors = [] := by cbv
  have hcompletes : session.Completes 9 (parseProgram a).program := by
    rw [hfirst]
    exact ⟨_, .cons rfl rfl (.nil _)⟩
  have hpieces := pieces_run_like_whole ha hb (by simp [hsecond, second]) (by cbv)
  have hsame := (hpieces.2.2 9 session).1 hcompletes
  have hrun : (session.run 9 a).2.run 9 b = (session.runProgram 9 first).2.runProgram 9 second := by
    rw [Session.run_of_read ha, Session.run_of_read hb, hfirst, hsecond]
  refine ⟨hcompletes, hsame, ?_, ?_⟩
  · rw [← hsame.result, hrun]
    rfl
  · rw [← hsame.sink, hrun]
    rfl

end ScriptLang
