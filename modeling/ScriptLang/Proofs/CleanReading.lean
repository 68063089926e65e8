-- Reading a text without errors. Every statement takes a token, so the loop over statements comes
-- to the end of the text. What it reads up to there it also reads where a semicolon and more tokens
-- stand in place of the end, and then it goes on with those.
import ScriptLang.Proofs.Layout
import ScriptLang.Proofs.ParsedTrees

namespace ScriptLang

namespace Parser

variable {α β : Type} {ts ts' : List Token}

/-! ## Statements take tokens -/

/-- A parser that takes a token whenever it gives a result. -/
def Takes (x : Parser α) : Prop := Yields x fun _ used => used ≠ []

namespace Takes

variable {x : Parser α} {f : α → Parser β}

theorem bind (hx : Takes x) (hf : ∀ a, Yields (f a) fun _ _ => True) : Takes (x >>= f) := by
  refine Yields.bind hx fun a used hused => (hf a).mono fun _ more _ => ?_
  exact List.append_ne_nil_of_left_ne_nil hused more

theorem behind {P : α → List Position → Prop} (hx : Yields x P) (hf : ∀ a, Takes (f a)) :
    Takes (x >>= f) := by
  refine hx.bind fun a used _ => (hf a).mono fun _ more hmore => ?_
  exact List.append_ne_nil_of_right_ne_nil used hmore

theorem expect (kind : TokenKind) : Takes (expect kind) := by
  intro ts _
  cases ts with
  | nil => exact List.suffix_refl []
  | cons t ts =>
    unfold Parser.expect
    rw [bind_eq]
    by_cases hk : t.kind = kind
    · rw [take?_cons_of_eq hk]
      exact ⟨[t], rfl, nofun⟩
    · rw [take?_cons_of_ne hk]
      exact List.suffix_refl _

theorem expression (n : Nat) (level : Precedence) : Takes (expression n level) := by
  cases n with
  | zero => exact .outOfTurns
  | succ n =>
    refine (yields_operand (trusted_expression n) n).bind fun left used hl => ?_
    refine (yields_climb (trusted_expression n) n level n hl.1).mono fun _ more _ => ?_
    exact List.append_ne_nil_of_left_ne_nil hl.2 more

end Takes

theorem Takes.length_lt {x : Parser α} (h : Takes x) (hts : ∀ t ∈ ts, t.Lexed) {a : α}
    {rest : List Token} (hok : x ts = .ok a rest) : rest.length < ts.length := by
  have htaken := h ts hts
  rw [hok] at htaken
  obtain ⟨used, rfl, hused⟩ := htaken
  have hpos := List.length_pos_iff.mpr hused
  rw [List.length_map] at hpos
  rw [List.length_append]
  omega

section Statements

variable {expr : ExprParser}

theorem takes_varStatement (he : Trusted expr) : Takes (varStatement expr) := by
  refine (Takes.expect .varWord).bind fun _ => Yields.identifier.bind fun _ _ _ => ?_
  exact (Yields.expect .assign).bind fun _ _ _ => (he .lowest).bind fun _ _ _ => .pure trivial

theorem takes_returnStatement (he : Trusted expr) : Takes (returnStatement expr) := by
  refine (Takes.expect .returnWord).bind fun _ => Yields.peekKind.bind fun kind _ _ => ?_
  split
  · exact .pure trivial
  · exact .pure trivial
  · exact .pure trivial
  · exact (he .lowest).bind fun _ _ _ => .pure trivial

theorem takes_deleteStatement (he : Trusted expr) : Takes (deleteStatement expr) := by
  refine (Takes.expect .deleteWord).bind fun _ => (he .lowest).bind fun target _ _ => ?_
  split
  · exact .pure trivial
  · exact .failAt _ _

theorem takes_enumStatement (he : Trusted expr) (turns : Nat) :
    Takes (enumStatement turns expr) := by
  refine (Takes.expect .enumWord).bind fun _ => Yields.identifier.bind fun name _ _ => ?_
  refine (Yields.expect .leftBrace).bind fun _ _ _ => ?_
  exact (yields_enumBranches he name [] turns).bind fun _ _ _ => .pure trivial

theorem takes_expressionStatement (he : Takes (expr .lowest)) :
    Takes (expressionStatement expr) := by
  refine .behind Yields.peekPosition fun position => he.bind fun e => ?_
  split
  · exact .pure trivial
  · exact .pure trivial

end Statements

variable {s : Statement} {rest : List Token}

/-- A parser that takes a token where tokens of the given kind are next. -/
def TakesAt (kind : TokenKind) (x : Parser α) : Prop :=
  ∀ ts, (∀ t ∈ ts, t.Lexed) → headKind ts = kind →
    ∀ a rest, x ts = .ok a rest → rest.length < ts.length

theorem Takes.here {x : Parser α} (h : Takes x) (kind : TokenKind) : TakesAt kind x :=
  fun _ hts _ _ _ hok => h.length_lt hts hok

theorem length_lt_of_peekKind {f : TokenKind → Parser α} (hf : ∀ kind, TakesAt kind (f kind))
    (hts : ∀ t ∈ ts, t.Lexed) {a : α} (h : (peekKind >>= f) ts = .ok a rest) :
    rest.length < ts.length :=
  hf (headKind ts) ts hts rfl a rest h

theorem length_lt_of_bareStatement {turns n : Nat} (hts : ∀ t ∈ ts, t.Lexed)
    (h : bareStatement turns (expression n) ts = .ok s rest) : rest.length < ts.length := by
  have he := trusted_expression n
  unfold bareStatement at h
  refine length_lt_of_peekKind (fun kind => ?_) hts h
  split
  · exact (takes_varStatement he).here _
  · exact (takes_returnStatement he).here _
  · intro ts _ hbreak s rest hok
    cases ts with
    | nil => cases hbreak
    | cons t ts =>
      cases hok
      exact Nat.lt_succ_self _
  · exact (takes_deleteStatement he).here _
  · exact (takes_enumStatement he turns).here _
  · exact (takes_expressionStatement (.expression n .lowest)).here _

theorem length_le_of_eat {kind : TokenKind} {eaten : Bool} (h : eat kind ts = .ok eaten rest) :
    rest.length ≤ ts.length := by
  cases ts with
  | nil =>
    cases h
    exact Nat.le_refl _
  | cons t ts =>
    by_cases hk : t.kind = kind
    · rw [eat_cons_of_eq hk] at h
      cases h
      exact Nat.le_succ _
    · rw [eat_cons_of_ne hk] at h
      cases h
      exact Nat.le_refl _

/-- A statement takes at least one token. -/
theorem length_lt_of_parseStatement (hts : ∀ t ∈ ts, t.Lexed)
    (h : parseStatement ts = .ok s rest) : rest.length < ts.length := by
  change statement (ts.length + 1) (expression (ts.length + 1)) ts = .ok s rest at h
  unfold statement at h
  rw [bind_eq] at h
  split at h
  · rename_i bare behind hbare
    rw [bind_eq] at h
    split at h
    · rename_i eaten left heat
      cases h
      exact Nat.lt_of_le_of_lt (length_le_of_eat heat) (length_lt_of_bareStatement hts hbare)
    · cases h
  · cases h

/-! ## Texts without errors -/

/-- Tokens that are read as a program without an error. -/
inductive Clean : List Token → Program → Prop
  | done {ts : List Token} (h : headKind (afterSemicolons ts) = .endOfText) : Clean ts []
  | next {ts rest : List Token} {s : Statement} {p : Program}
      (hgoes : headKind (afterSemicolons ts) ≠ .endOfText)
      (h : parseStatement (afterSemicolons ts) = .ok s rest) (hrest : Clean rest p) :
      Clean ts (s :: p)

theorem Clean.of_afterSemicolons {p : Program} (h : Clean ts p)
    (heq : afterSemicolons ts' = afterSemicolons ts) : Clean ts' p := by
  cases h with
  | done h => exact .done (heq ▸ h)
  | next hgoes h hrest => exact .next (heq ▸ hgoes) (heq ▸ h) hrest

/-- What a turn of the loop leaves: fewer tokens, all of them from the text. -/
theorem left_by_parseStatement (hts : ∀ t ∈ ts, t.Lexed)
    (h : parseStatement (afterSemicolons ts) = .ok s rest) :
    rest.length < ts.length ∧ ∀ t ∈ rest, t.Lexed := by
  have hsuffix := suffix_afterSemicolons ts
  have hlexed : ∀ t ∈ afterSemicolons ts, t.Lexed := fun t ht => hts t (hsuffix.mem ht)
  constructor
  · exact Nat.lt_of_lt_of_le (length_lt_of_parseStatement hlexed h) hsuffix.length_le
  · have hyields := yields_parseStatement _ hlexed
    rw [h] at hyields
    obtain ⟨used, hused, -⟩ := hyields
    exact fun t ht => hlexed t (hused ▸ List.mem_append_right used ht)

theorem clean_of_statements {turns : Nat} (hturns : ts.length < turns)
    (hts : ∀ t ∈ ts, t.Lexed) (herrors : (statements turns false ts).errors = []) :
    Clean ts (statements turns false ts).program := by
  induction turns generalizing ts with
  | zero => exact absurd hturns (Nat.not_lt_zero _)
  | succ turns ih =>
    by_cases hend : headKind (afterSemicolons ts) = .endOfText
    · rw [statements_at_end turns false hend]
      exact .done hend
    · rw [statements_succ turns hend (by simp)] at herrors ⊢
      cases hread : parseStatement (afterSemicolons ts) with
      | error e rest =>
        rw [hread] at herrors
        cases herrors
      | ok s rest =>
        rw [hread] at herrors
        obtain ⟨hless, hrest⟩ := left_by_parseStatement hts hread
        exact .next hend hread (ih (by omega) hrest herrors)

theorem Clean.statements {p : Program} (h : Clean ts p) {turns : Nat} (hturns : ts.length < turns)
    (hts : ∀ t ∈ ts, t.Lexed) : statements turns false ts = ⟨p, []⟩ := by
  induction h generalizing turns with
  | @done ts hend =>
    obtain ⟨n, rfl⟩ := Nat.exists_eq_add_one_of_ne_zero (Nat.ne_zero_of_lt hturns)
    exact statements_at_end n false hend
  | @next ts rest s p hgoes hread hrest ih =>
    obtain ⟨n, rfl⟩ := Nat.exists_eq_add_one_of_ne_zero (Nat.ne_zero_of_lt hturns)
    obtain ⟨hless, hlexed⟩ := left_by_parseStatement hts hread
    rw [statements_succ n hgoes (by simp), hread]
    dsimp only
    rw [ih (by omega) hlexed]

/-- No error is found exactly in clean tokens. -/
theorem parseTokens_eq_iff (hts : ∀ t ∈ ts, t.Lexed) {p : Program} :
    parseTokens ts = ⟨p, []⟩ ↔ Clean ts p := by
  have hturns : ts.length < 2 * ts.length + 1 := by omega
  unfold parseTokens
  constructor
  · intro h
    have hclean := clean_of_statements hturns hts (by rw [h])
    rwa [h] at hclean
  · exact fun h => h.statements hturns hts

/-! ## Where one text ends and another one begins -/

theorem headKind_afterSemicolons (ts : List Token) :
    headKind (afterSemicolons ts) ≠ .semicolon := by
  induction ts with
  | nil => nofun
  | cons t ts ih =>
    by_cases hk : t.kind = .semicolon
    · simpa [afterSemicolons, hk] using ih
    · simp [afterSemicolons, hk, headKind]

/-- No statement starts where the first text ends. -/
theorem fails_parseStatement (joint : Option Joint) : FailsAtSeam joint parseStatement := by
  intro j last tail hj hlast
  have hroom : Room joint ((last :: tail).length + 1) ((last :: tail).length + 1) := by
    subst hj
    exact Nat.le_refl _
  exact fails_statement (reading_expression hroom) _ j last tail hj hlast

/-- Tokens that are clean from the end of the first text on hold nothing. -/
theorem Clean.at_seam {j : Joint} {last : Token} {tail : List Token} {p : Program}
    (hlast : last.kind = j.kind) (h : Clean (last :: tail) p) : j.kind = .endOfText ∧ p = [] := by
  have hne : last.kind ≠ .semicolon := hlast ▸ j.kind_ne nofun nofun
  have hafter : afterSemicolons (last :: tail) = last :: tail := by simp [afterSemicolons, hne]
  cases h with
  | done h =>
    rw [hafter] at h
    exact ⟨hlast.symm.trans h, rfl⟩
  | next _ h _ =>
    obtain ⟨e, rest, hfails⟩ := fails_parseStatement (some j) j last tail rfl hlast
    rw [hafter, hfails] at h
    cases h

/-- Tokens that stand beside each other, not at the seam, go on with a statement in both texts. -/
theorem Beside.goes_on {j : Joint} (h : Beside (some j) ts ts') (hno : headKind ts' ≠ .semicolon) :
    headKind ts ≠ .endOfText ∧ headKind ts' ≠ .endOfText := by
  cases h with
  | nil h => cases h
  | seam _ _ hsemicolon => exact absurd hsemicolon hno
  | cons hshape hgoes _ =>
    have hgoes := hgoes (Option.some_ne_none j)
    exact ⟨hgoes, fun hend => hgoes ((kind_eq_of_shape hshape).trans hend)⟩

/-- Where the first text is clean, the second text has the same statements up to the joint, and
behind it those of the tokens that follow. -/
theorem Clean.beside {j : Joint} {p : Program} (h : Clean ts p) (hs : Beside (some j) ts ts') :
    j.kind = .endOfText ∧ ∃ p', SameStatements p p' ∧
      ∀ q, Clean j.more q → Clean ts' (p' ++ q) := by
  induction h generalizing ts' with
  | @done ts h =>
    rcases hs.afterSemicolons with hboth | ⟨j, last, tail, hj, hlast, -, hts, hts'⟩
    · exact absurd h (hboth.goes_on (headKind_afterSemicolons ts')).1
    · obtain rfl := Option.some.inj hj
      rw [hts] at h
      exact ⟨hlast.symm.trans h, [], .noStatements, fun q hq => hq.of_afterSemicolons hts'⟩
  | @next ts rest s p hgoes h hrest ih =>
    rcases hs.afterSemicolons with hboth | ⟨j, last, tail, hj, hlast, -, hts, hts'⟩
    · have hgoes' := (hboth.goes_on (headKind_afterSemicolons ts')).2
      rcases parseStatement_beside hboth with
        hagree | ⟨i, first, s', last, tail, hi, hsame, hlast, hok, hok'⟩
      · -- The statement ends before the joint.
        rw [h] at hagree
        generalize hread : parseStatement (afterSemicolons ts') = r at hagree
        cases hagree with
        | ok hsame hbeside =>
          obtain ⟨hkind, p', hsame', hmore⟩ := ih hbeside
          refine ⟨hkind, _ :: p', .statements hsame hsame', fun q hq => ?_⟩
          exact .next hgoes' hread (hmore q hq)
      · -- The statement is the last one, and has taken the semicolon of the joint.
        obtain rfl := Option.some.inj hi
        obtain ⟨rfl, rfl⟩ := EStateM.Result.ok.inj (h.symm.trans hok)
        obtain ⟨hkind, rfl⟩ := hrest.at_seam hlast
        refine ⟨hkind, [s'], .statements hsame .noStatements, fun q hq => ?_⟩
        exact .next hgoes' hok' hq
    · obtain ⟨e, left, hfails⟩ := fails_parseStatement _ j last tail hj hlast
      rw [hts, hfails] at h
      cases h

/-- Tokens up to a joint, each beside itself. -/
theorem beside_seam {j : Joint} {before before' : List Token} {last semicolon : Token}
    {tail : List Token} (h : before.map Token.shape = before'.map Token.shape)
    (hgoes : ∀ t ∈ before, t.kind ≠ .endOfText) (hlast : last.kind = j.kind)
    (hsemicolon : semicolon.kind = .semicolon) (hlength : tail.length ≤ j.more.length) :
    Beside (some j) (before ++ last :: tail) (before' ++ semicolon :: j.more) := by
  induction before generalizing before' with
  | nil =>
    obtain rfl := List.map_eq_nil_iff.mp h.symm
    exact .seam rfl hlast hsemicolon hlength
  | cons t before ih =>
    cases before' with
    | nil => cases h
    | cons t' before' =>
      obtain ⟨hshape, hrest⟩ := List.cons.inj h
      obtain ⟨ht, hbefore⟩ := List.forall_mem_cons.mp hgoes
      exact .cons hshape (fun _ => ht) (ih hrest hbefore)

/-- A clean text holds no illegal token: reading could not go on behind it. -/
theorem Clean.legal {p : Program} {ts : List Token} {last : Token} (h : Clean (ts ++ [last]) p)
    (hgoes : ∀ t ∈ ts, t.kind ≠ .endOfText) : ∀ t ∈ ts, t.kind ≠ .illegal := by
  intro t ht hillegal
  obtain ⟨before, behind, rfl⟩ := List.append_of_mem ht
  let j : Joint := ⟨.illegal, behind ++ [last], .inr rfl⟩
  have hbeside : Beside (some j) (before ++ t :: (behind ++ [last]))
      (before ++ ⟨.semicolon, ";", t.position⟩ :: j.more) :=
    beside_seam rfl (fun u hu => hgoes u (List.mem_append_left _ hu)) hillegal rfl (Nat.le_refl _)
  rw [List.append_assoc] at h
  cases (h.beside hbeside).1

end Parser

end ScriptLang
