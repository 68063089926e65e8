-- Recovery from errors. However broken a text is, the parser comes to its end: no reading runs out
-- of turns, every error is about a token that the parser has come to, and it goes on behind that
-- token. So the errors stand in the order of the text, and there are never too many of them.
import ScriptLang.Proofs.Pieces

namespace ScriptLang

namespace Parser

variable {α β : Type} {all ts us rest : List Token} {p : Position}

/-! ## What a reading leaves -/

/-- Tokens of which the last one, and no other, is the end of the text. -/
def Ended (ts : List Token) : Prop :=
  ∃ before last, ts = before ++ [last] ∧ last.kind = .endOfText ∧
    ∀ t ∈ before, t.kind ≠ .endOfText

namespace Ended

theorem ne_nil (h : Ended ts) : ts ≠ [] := by
  obtain ⟨before, last, rfl, -⟩ := h
  simp

theorem length_pos (h : Ended ts) : 0 < ts.length := List.length_pos_iff.mpr h.ne_nil

/-- Behind a token that is not the end of the text there are more. -/
theorem tail {t : Token} (h : Ended (t :: ts)) (ht : t.kind ≠ .endOfText) : Ended ts := by
  obtain ⟨before, last, heq, hlast, hbefore⟩ := h
  cases before with
  | nil =>
    cases heq
    exact absurd hlast ht
  | cons first before =>
    cases heq
    exact ⟨before, last, rfl, hlast, (List.forall_mem_cons.mp hbefore).2⟩

theorem eq_singleton {t : Token} (h : Ended (t :: ts)) (ht : t.kind = .endOfText) : ts = [] := by
  obtain ⟨before, last, heq, hlast, hbefore⟩ := h
  cases before with
  | nil =>
    cases heq
    rfl
  | cons first before =>
    cases heq
    exact absurd ht (hbefore _ List.mem_cons_self)

theorem afterSemicolons (h : Ended ts) : Ended (afterSemicolons ts) := by
  induction ts with
  | nil => exact absurd rfl h.ne_nil
  | cons t ts ih =>
    by_cases ht : t.kind = .semicolon
    · have hrest := ih (h.tail (by simp [ht]))
      simpa [Parser.afterSemicolons, ht] using hrest
    · simpa [Parser.afterSemicolons, ht] using h

theorem synchronized (h : Ended ts) : Ended (synchronized ts) := by
  fun_induction Parser.synchronized ts with
  | case1 => exact h
  | case2 t rest hk => exact h.tail (by simp [hk])
  | case3 | case4 => exact h
  | case5 t rest _ _ hk ih => exact ih (h.tail hk)

end Ended

/-- What is left of the tokens `ts`: the last of them, with the end of the text among them. -/
structure Left (ts rest : List Token) : Prop where
  suffix : rest <:+ ts
  ended : Ended rest

theorem Left.trans (h : Left ts us) (h' : Left us rest) : Left ts rest :=
  ⟨h'.suffix.trans h.suffix, h'.ended⟩

theorem Left.refl (h : Ended ts) : Left ts ts := ⟨List.suffix_refl ts, h⟩

theorem Left.tail {t : Token} (h : Ended (t :: ts)) (ht : t.kind ≠ .endOfText) :
    Left (t :: ts) ts := ⟨List.suffix_cons t ts, h.tail ht⟩

/-- Where the tokens `rest` are left of a text, the place `p` is that of a token before them or of
the first of them. -/
def Seen (all rest : List Token) (p : Position) : Prop :=
  ∃ before, all = before ++ rest ∧ p ∈ (before ++ rest.take 1).map Token.position

theorem Seen.mono (h : Seen all ts p) (hl : Left ts rest) : Seen all rest p := by
  obtain ⟨before, rfl, hp⟩ := h
  obtain ⟨used, rfl⟩ := hl.suffix
  refine ⟨before ++ used, (List.append_assoc ..).symm, ?_⟩
  cases used with
  | nil => simpa using hp
  | cons t used =>
    simp only [List.cons_append, List.take_succ_cons, List.take_zero, List.map_append,
      List.map_cons, List.map_nil, List.mem_append, List.mem_singleton] at hp ⊢
    simp only [List.mem_cons]
    tauto

theorem seen_head {t : Token} (h : t :: ts <:+ all) : Seen all (t :: ts) t.position := by
  obtain ⟨before, rfl⟩ := h
  exact ⟨before, rfl, by simp⟩

/-! ## Readings that settle -/

/-- The outcome of a reading from the tokens `ts`. A result takes at least `taken` of them, and the
places `news` of the result have been seen; so has the place of an error. -/
inductive Outcome (all ts : List Token) (taken : Nat) (news : α → List Position) :
    EStateM.Result ParseError (List Token) α → Prop
  | ok {a : α} {rest : List Token} (hl : Left ts rest) (ht : rest.length + taken ≤ ts.length)
      (h : ∀ p ∈ news a, Seen all rest p) : Outcome all ts taken news (.ok a rest)
  | error {e : ParseError} {rest : List Token} (hl : Left ts rest)
      (h : Seen all rest e.position) : Outcome all ts taken news (.error e rest)

/-- Two parsers read the same from the tokens `ts`, where the places `known` have been seen. -/
def SettlesOn (all : List Token) (known : List Position) (taken : Nat) (x y : Parser α)
    (news : α → List Position) (ts : List Token) : Prop :=
  (∀ p ∈ known, Seen all ts p) → y ts = x ts ∧ Outcome all ts taken news (x ts)

/-- Two parsers read the same from at most `n` tokens of a text. -/
def Settles (all : List Token) (n : Nat) (known : List Position) (taken : Nat) (x y : Parser α)
    (news : α → List Position) : Prop :=
  ∀ ts, Left all ts → ts.length ≤ n → SettlesOn all known taken x y news ts

/-- Two parsers read the same from at most `n` tokens of which the first is of a kind. -/
def SettlesAt (all : List Token) (n : Nat) (known : List Position) (taken : Nat) (x y : Parser α)
    (news : α → List Position) (kind : TokenKind) : Prop :=
  ∀ ts, Left all ts → ts.length ≤ n → headKind ts = kind → SettlesOn all known taken x y news ts

variable {n m c d : Nat} {known : List Position} {x y : Parser α} {f g : α → Parser β}
  {news : α → List Position} {more : β → List Position}

/-- The outcome of a reading that goes on where some tokens have been taken. -/
theorem Outcome.behind {r : EStateM.Result ParseError (List Token) α}
    (h : Outcome all rest (c - d) news r) (hl : Left ts rest)
    (ht : rest.length + d ≤ ts.length) : Outcome all ts c news r := by
  cases h with
  | ok hl' ht' h => exact .ok (hl.trans hl') (by omega) h
  | error hl' h => exact .error (hl.trans hl') h

/-- A reading and one that goes on from its result. What goes on sees fewer tokens. -/
theorem SettlesOn.bind (hts : Left all ts) (hn : ts.length ≤ m + d)
    (hx : SettlesOn all known d x y news ts)
    (hf : ∀ a, Settles all m (known ++ news a) (c - d) (f a) (g a) more) :
    SettlesOn all known c (x >>= f) (y >>= g) more ts := by
  intro hknown
  obtain ⟨heq, hout⟩ := hx hknown
  rw [bind_eq, bind_eq, heq]
  generalize x ts = r at hout
  cases hout with
  | error hl h => exact ⟨rfl, .error hl h⟩
  | @ok a rest hl ht h =>
    have hseen : ∀ p ∈ known ++ news a, Seen all rest p := by
      intro p hp
      rcases List.mem_append.mp hp with hold | hnew
      · exact (hknown p hold).mono hl
      · exact h p hnew
    obtain ⟨heq', hout'⟩ := hf a rest (hts.trans hl) (by omega) hseen
    exact ⟨heq', hout'.behind hl ht⟩

theorem Settles.here (h : Settles all n known c x y news) (kind : TokenKind) :
    SettlesAt all n known c x y news kind := fun ts hts hn _ => h ts hts hn

namespace Settles

/-- No tokens are left to read from. -/
theorem vacuous (hn : n ≤ 0) : Settles all n known c x y news := by
  intro ts hts hlength
  have hpos := hts.ended.length_pos
  omega

theorem bindLess (hx : Settles all n known d x y news) (hn : n ≤ m + d)
    (hf : ∀ a, Settles all m (known ++ news a) (c - d) (f a) (g a) more) :
    Settles all n known c (x >>= f) (y >>= g) more :=
  fun ts hts hlength => .bind hts (hlength.trans hn) (hx ts hts hlength) hf

theorem bind (hx : Settles all n known d x y news)
    (hf : ∀ a, Settles all n (known ++ news a) (c - d) (f a) (g a) more) :
    Settles all n known c (x >>= f) (y >>= g) more :=
  hx.bindLess (Nat.le_add_right n d) hf

theorem fewer (h : Settles all n known c x y news) (hm : m ≤ n) :
    Settles all m known c x y news := fun ts hts hlength => h ts hts (hlength.trans hm)

theorem lax (h : Settles all n known c x y news) (hd : d ≤ c) :
    Settles all n known d x y news := by
  intro ts hts hlength hknown
  obtain ⟨heq, hout⟩ := h ts hts hlength hknown
  refine ⟨heq, ?_⟩
  generalize x ts = r at hout
  cases hout with
  | ok hl ht h => exact .ok hl (by omega) h
  | error hl h => exact .error hl h

theorem pure {a : α} (h : ∀ p ∈ news a, p ∈ known) :
    Settles all n known 0 (pure a) (pure a) news :=
  fun _ hts _ hknown => ⟨rfl, .ok (.refl hts.ended) (Nat.le_refl _) fun p hp => hknown p (h p hp)⟩

theorem failAt (cause : ParseCause) (h : p ∈ known) :
    Settles all n known c (failAt p cause : Parser α) (Parser.failAt p cause) news :=
  fun _ hts _ hknown => ⟨rfl, .error (.refl hts.ended) (hknown p h)⟩

theorem failUnexpected (expected : TokenKind) :
    Settles all n known c (failUnexpected expected : Parser α) (Parser.failUnexpected expected)
      news := by
  intro ts hts _ _
  refine ⟨rfl, ?_⟩
  cases ts with
  | nil => exact absurd rfl hts.ended.ne_nil
  | cons t ts =>
    have hplace : (unexpected expected (t :: ts)).position = t.position := by
      unfold unexpected
      dsimp only
      split <;> rfl
    exact .error (.refl hts.ended) (hplace ▸ seen_head hts.suffix)

theorem failAt_bind (cause : ParseCause) (h : p ∈ known) :
    Settles all n known c (Parser.failAt p cause >>= f) (Parser.failAt p cause >>= g) more :=
  fun _ hts _ hknown => ⟨rfl, .error (.refl hts.ended) (hknown p h)⟩

theorem failUnexpected_bind (expected : TokenKind) :
    Settles all n known c (Parser.failUnexpected expected >>= f)
      (Parser.failUnexpected expected >>= g) more :=
  fun ts hts hlength hknown => failUnexpected expected ts hts hlength hknown

theorem peekPosition : Settles all n known 0 peekPosition peekPosition fun p => [p] := by
  intro ts hts _ _
  refine ⟨rfl, .ok (.refl hts.ended) (Nat.le_refl _) ?_⟩
  cases ts with
  | nil => exact absurd rfl hts.ended.ne_nil
  | cons t ts =>
    intro p hp
    rw [List.mem_singleton.mp hp]
    exact seen_head hts.suffix

/-- A parser that looks at the kind of the next token. -/
theorem peekKind_bind {f g : TokenKind → Parser β}
    (h : ∀ kind, SettlesAt all n known c (f kind) (g kind) more kind) :
    Settles all n known c (peekKind >>= f) (peekKind >>= g) more :=
  fun ts hts hlength => h (headKind ts) ts hts hlength rfl

theorem skipSemicolons : Settles all n known 0 skipSemicolons skipSemicolons fun _ => [] := by
  intro ts hts _ _
  have hsuffix := suffix_afterSemicolons ts
  exact ⟨rfl, .ok ⟨hsuffix, hts.ended.afterSemicolons⟩ hsuffix.length_le nofun⟩

/-- A token of a kind may be next. It is taken then, and what goes on from it has seen it. -/
theorem take?_bind {f g : Option Token → Parser β} {kind : TokenKind}
    (hkind : kind ≠ .endOfText)
    (hsome : ∀ t, Settles all n (known ++ [t.position]) (c - 1) (f (some t)) (g (some t)) more)
    (hnone : Settles all n known c (f none) (g none) more) :
    Settles all n known c (take? kind >>= f) (take? kind >>= g) more := by
  intro ts hts hlength hknown
  cases ts with
  | nil => exact absurd rfl hts.ended.ne_nil
  | cons t ts =>
    rw [bind_eq, bind_eq]
    by_cases ht : t.kind = kind
    · have hl : Left (t :: ts) ts := .tail hts.ended (ht ▸ hkind)
      have hseen : ∀ p ∈ known ++ [t.position], Seen all ts p := by
        intro p hp
        rcases List.mem_append.mp hp with hold | hnew
        · exact (hknown p hold).mono hl
        · rw [List.mem_singleton.mp hnew]
          exact (seen_head hts.suffix).mono hl
      obtain ⟨heq, hout⟩ := hsome t ts (hts.trans hl) (Nat.le_of_succ_le hlength) hseen
      rw [take?_cons_of_eq ht]
      exact ⟨heq, hout.behind hl (Nat.le_refl _)⟩
    · rw [take?_cons_of_ne ht]
      exact hnone (t :: ts) hts hlength hknown

theorem take? {kind : TokenKind} (hkind : kind ≠ .endOfText) :
    Settles all n known 0 (take? kind) (take? kind) fun o => o.toList.map Token.position := by
  rw [← bind_pure (Parser.take? kind)]
  exact take?_bind hkind (fun _ => .pure fun _ hp => List.mem_append_right _ hp) (.pure nofun)

theorem eat {kind : TokenKind} (hkind : kind ≠ .endOfText) :
    Settles all n known 0 (eat kind) (eat kind) fun _ => [] :=
  take?_bind hkind (fun _ => .pure nofun) (.pure nofun)

theorem expect {kind : TokenKind} (hkind : kind ≠ .endOfText) :
    Settles all n known 1 (expect kind) (expect kind) fun t => [t.position] :=
  take?_bind hkind (fun _ => .pure fun _ hp => List.mem_append_right _ hp) (.failUnexpected kind)

theorem identifier : Settles all n known 1 identifier identifier fun _ => [] :=
  (expect (by decide)).bind fun _ => .pure nofun

/-- Items with commas between them. Each takes a token, so there are turns enough. -/
theorem commaList (hx : ∀ known, Settles all n known 1 x y news) {closing : TokenKind}
    (hclosing : closing ≠ .endOfText) {turns turns' : Nat} (hm : m ≤ n) (ht : m ≤ turns)
    (ht' : m ≤ turns') (known : List Position) :
    Settles all m known 0 (commaList x closing turns) (commaList y closing turns')
      fun as => as.flatMap news := by
  induction turns generalizing turns' m known with
  | zero => exact .vacuous ht
  | succ turns ih =>
    cases turns' with
    | zero => exact .vacuous ht'
    | succ turns' =>
      refine (eat hclosing).bind fun closed => ?_
      split
      · exact .pure nofun
      · refine ((hx _).fewer hm).bindLess (m := m - 1) (by omega) fun first => ?_
        refine (eat (by decide)).bind fun comma => ?_
        split
        · refine (ih (by omega) (by omega) (by omega) _).bind fun rest => .pure ?_
          intro p hp
          simp only [List.flatMap_cons, List.mem_append] at hp ⊢
          tauto
        · refine ((expect hclosing).lax (Nat.zero_le 1)).bind fun _ => .pure ?_
          intro p hp
          simp only [List.flatMap_cons, List.flatMap_nil, List.append_nil, List.mem_append] at hp ⊢
          tauto

end Settles

/-! ## Statements -/

/-- Parsers of expressions that read the same from at most `n` tokens, and take one of them. -/
def Able (all : List Token) (n : Nat) (expr expr' : ExprParser) : Prop :=
  ∀ known level, Settles all n known 1 (expr level) (expr' level) fun _ => []

variable {expr expr' : ExprParser} {turns turns' : Nat}

theorem Able.fewer (he : Able all n expr expr') (hm : m ≤ n) : Able all m expr expr' :=
  fun known level => (he known level).fewer hm

theorem settles_varStatement (he : Able all n expr expr') (known : List Position) :
    Settles all n known 1 (varStatement expr) (varStatement expr') fun _ => [] := by
  refine .bind (.expect (by decide)) fun keyword => .bind .identifier fun name => ?_
  exact .bind (.expect (by decide)) fun _ => .bind (he _ .lowest) fun value => .pure nofun

theorem settles_expressionStatement (he : Able all n expr expr') (known : List Position) :
    Settles all n known 1 (expressionStatement expr) (expressionStatement expr')
      fun _ => [] := by
  refine .bind .peekPosition fun position => .bind (he _ .lowest) fun e => ?_
  split
  · exact .pure nofun
  · exact .pure nofun

theorem settles_returnStatement (he : Able all n expr expr') (known : List Position) :
    Settles all n known 1 (returnStatement expr) (returnStatement expr') fun _ => [] := by
  refine .bind (.expect (by decide)) fun keyword => .peekKind_bind fun kind => Settles.here ?_ kind
  split
  · exact .pure nofun
  · exact .pure nofun
  · exact .pure nofun
  · exact ((he _ .lowest).lax (Nat.zero_le 1)).bind fun value => .pure nofun

/-- What cannot be deleted is the fault of the keyword, which has been seen before. -/
theorem settles_deleteStatement (he : Able all n expr expr') (known : List Position) :
    Settles all n known 1 (deleteStatement expr) (deleteStatement expr') fun _ => [] := by
  refine .bind (.expect (by decide)) fun keyword => ?_
  refine ((he _ .lowest).lax (Nat.zero_le 1)).bind fun target => ?_
  split
  · exact .pure nofun
  · exact .failAt _ (by simp)

theorem settles_enumBranches (he : Able all n expr expr') (name : String) (seen : List String)
    (hm : m ≤ n) (ht : m ≤ turns) (ht' : m ≤ turns') (known : List Position) :
    Settles all m known 0 (enumBranches expr name seen turns)
      (enumBranches expr' name seen turns') fun _ => [] := by
  induction turns generalizing turns' m known seen with
  | zero => exact .vacuous ht
  | succ turns ih =>
    cases turns' with
    | zero => exact .vacuous ht'
    | succ turns' =>
      refine .bind (.eat (by decide)) fun closed => ?_
      split
      · exact .pure nofun
      · refine .bindLess (m := m - 1) (.expect (by decide)) (by omega) fun _ => ?_
        refine .bind .peekPosition fun position => .bind .identifier fun branch => ?_
        split
        · exact .failAt_bind _ (by simp)
        · refine .bind (.expect (by decide)) fun _ => ?_
          refine .bind ((he _ .lowest).fewer (by omega)) fun value => ?_
          refine .bind (.eat (by decide)) fun _ => ?_
          exact (ih _ (by omega) (by omega) (by omega) _).bind fun branches => .pure nofun

theorem settles_enumStatement (he : Able all n expr expr') (ht : n ≤ turns) (ht' : n ≤ turns')
    (known : List Position) :
    Settles all n known 1 (enumStatement turns expr) (enumStatement turns' expr')
      fun _ => [] := by
  refine .bind (.expect (by decide)) fun keyword => .bind .identifier fun name => ?_
  refine .bind (.expect (by decide)) fun _ => ?_
  exact .bind (settles_enumBranches he name [] (Nat.le_refl n) ht ht' _) fun bs => .pure nofun

theorem settles_bareStatement (he : Able all n expr expr') (ht : n ≤ turns) (ht' : n ≤ turns')
    (known : List Position) :
    Settles all n known 1 (bareStatement turns expr) (bareStatement turns' expr')
      fun _ => [] := by
  refine .peekKind_bind fun kind => ?_
  split
  · exact (settles_varStatement he known).here _
  · exact (settles_returnStatement he known).here _
  · intro ts hts _ hkind _
    cases ts with
    | nil => cases hkind
    | cons t ts =>
      have hbreak : t.kind = .breakWord := hkind
      exact ⟨rfl, .ok (.tail hts.ended (by simp [hbreak])) (Nat.le_refl _) nofun⟩
  · exact (settles_deleteStatement he known).here _
  · exact (settles_enumStatement he ht ht' known).here _
  · exact (settles_expressionStatement he known).here _

theorem settles_statement (he : Able all n expr expr') (ht : n ≤ turns) (ht' : n ≤ turns')
    (known : List Position) :
    Settles all n known 1 (statement turns expr) (statement turns' expr') fun _ => [] := by
  refine (settles_bareStatement he ht ht' known).bind fun s => ?_
  exact .bind (.eat (by decide)) fun _ => .pure nofun

theorem settles_blockStatements (he : Able all n expr expr') (ht : n ≤ turns) (ht' : n ≤ turns')
    {left left' : Nat} (hm : m ≤ n) (hl : m ≤ left) (hl' : m ≤ left') (known : List Position) :
    Settles all m known 0 (blockStatements turns expr left) (blockStatements turns' expr' left')
      fun _ => [] := by
  induction left generalizing left' m known with
  | zero => exact .vacuous hl
  | succ left ih =>
    cases left' with
    | zero => exact .vacuous hl'
    | succ left' =>
      refine .bind .skipSemicolons fun _ => .bind (.eat (by decide)) fun closed => ?_
      split
      · exact .pure nofun
      · refine .peekKind_bind fun kind => Settles.here ?_ kind
        split
        · exact .failUnexpected_bind _
        · refine ((settles_statement he ht ht' _).fewer hm).bindLess (m := m - 1) (by omega)
            fun first => ?_
          exact (ih (by omega) (by omega) (by omega) _).bind fun rest => .pure nofun

theorem settles_block (he : Able all n expr expr') (ht : n ≤ turns) (ht' : n ≤ turns')
    (known : List Position) :
    Settles all n known 1 (block turns expr) (block turns' expr') fun _ => [] := by
  refine .bind (.expect (by decide)) fun brace => ?_
  exact .bind (settles_blockStatements he ht ht' (Nat.le_refl n) ht ht' _) fun ss => .pure nofun

/-! ## Expressions that start with a token of their own -/

theorem settles_conditional (he : Able all n expr expr') (ht : n ≤ turns) (ht' : n ≤ turns')
    {left left' : Nat} (hm : m ≤ n) (hl : m ≤ left) (hl' : m ≤ left') (position : Position)
    (known : List Position) :
    Settles all m known 0 (conditional turns expr left position)
      (conditional turns' expr' left' position) fun _ => [] := by
  induction left generalizing left' m known position with
  | zero => exact .vacuous hl
  | succ left ih =>
    cases left' with
    | zero => exact .vacuous hl'
    | succ left' =>
      have hblock (known : List Position) :
          Settles all (m - 1) known 0 (block turns expr) (block turns' expr') fun _ => [] :=
        ((settles_block he ht ht' known).fewer (by omega)).lax (Nat.zero_le 1)
      refine ((he _ .lowest).fewer hm).bindLess (m := m - 1) (by omega) fun condition => ?_
      refine (hblock _).bind fun consequence => .bind (.eat (by decide)) fun other => ?_
      split
      · refine .take?_bind (by decide) (fun keyword => ?_) ?_
        · exact (ih (by omega) (by omega) (by omega) _ _).bind fun nested => .pure nofun
        · exact (hblock _).bind fun alternative => .pure nofun
      · exact .pure nofun

theorem settles_loopInitializer (he : Able all n expr expr') (known : List Position) :
    Settles all n known 0 (loopInitializer expr) (loopInitializer expr') fun _ => [] := by
  refine .peekKind_bind fun kind => Settles.here ?_ kind
  split
  · exact .pure nofun
  · exact ((settles_varStatement he known).lax (Nat.zero_le 1)).bind fun s => .pure nofun
  · exact ((settles_expressionStatement he known).lax (Nat.zero_le 1)).bind fun s => .pure nofun

theorem settles_clause (he : Able all n expr expr') (closing : TokenKind)
    (known : List Position) :
    Settles all n known 0 (clause expr closing) (clause expr' closing) fun _ => [] := by
  refine .peekKind_bind fun kind => Settles.here ?_ kind
  split
  · exact .pure nofun
  · exact ((he _ .lowest).lax (Nat.zero_le 1)).bind fun e => .pure nofun

theorem settles_loop (he : Able all n expr expr') (ht : n ≤ turns) (ht' : n ≤ turns')
    (position : Position) (known : List Position) :
    Settles all n known 0 (loop turns expr position) (loop turns' expr' position)
      fun _ => [] := by
  refine .bind (.expect (by decide)) fun _ => ?_
  refine .bind (settles_loopInitializer he _) fun initializer => ?_
  refine .bind (.expect (by decide)) fun _ => .bind (settles_clause he _ _) fun condition => ?_
  refine .bind (.expect (by decide)) fun _ => .bind (settles_clause he _ _) fun update => ?_
  refine .bind (.expect (by decide)) fun _ => ?_
  exact .bind (settles_block he ht ht' _) fun body => .pure nofun

theorem settles_parameter (he : Able all n expr expr') (known : List Position) :
    Settles all n known 1 (parameter expr) (parameter expr') fun p => [p.2] := by
  refine .bind .peekPosition fun position => .take?_bind (by decide) (fun token => ?_) ?_
  · refine .bind (.eat (by decide)) fun given => ?_
    split
    · refine ((he _ .assign).lax (Nat.zero_le 1)).bind fun default => .pure ?_
      simp
    · exact .pure (by simp)
  · exact fun ts hts _ hknown => ⟨rfl, .error (.refl hts.ended) (hknown position (by simp))⟩

/-- A parameter that is out of place is one of the parameters. -/
theorem mem_of_requiredAfterDefault? {ps : List (Parameter × Position)} {found : String × Position}
    (h : requiredAfterDefault? ps = some found) : found.2 ∈ ps.map Prod.snd := by
  induction ps with
  | nil => cases h
  | cons q ps ih =>
    obtain ⟨parameter, position⟩ := q
    cases parameter with
    | required name => exact List.mem_cons_of_mem _ (ih h)
    | defaulted name default =>
      obtain ⟨late, hlate, rfl⟩ := Option.map_eq_some_iff.mp h
      exact List.mem_cons_of_mem _ (List.mem_map_of_mem (List.mem_of_find?_eq_some hlate))

theorem settles_functionLiteral (he : Able all n expr expr') (ht : n ≤ turns) (ht' : n ≤ turns')
    (position : Position) (known : List Position) :
    Settles all n known 0 (functionLiteral turns expr position)
      (functionLiteral turns' expr' position) fun _ => [] := by
  refine .bind (.take? (by decide)) fun name => .bind (.expect (by decide)) fun _ => ?_
  refine .bind (.commaList (settles_parameter he) (by decide) (Nat.le_refl n) ht ht' _) fun ps => ?_
  split
  · rename_i name place hplace
    have hmem := mem_of_requiredAfterDefault? hplace
    refine .failAt_bind _ (List.mem_append_right _ ?_)
    simpa [List.flatMap_singleton'] using hmem
  · exact .bind (settles_block he ht ht' _) fun body => .pure nofun

theorem settles_exprs (he : Able all n expr expr') {closing : TokenKind}
    (hclosing : closing ≠ .endOfText) (ht : n ≤ turns) (ht' : n ≤ turns')
    (known : List Position) :
    Settles all n known 0 (commaList (expr .lowest) closing turns)
      (commaList (expr' .lowest) closing turns') fun es => es.flatMap fun _ => [] :=
  .commaList (fun known => he known .lowest) hclosing (Nat.le_refl n) ht ht' known

theorem settles_hashPair (he : Able all n expr expr') (known : List Position) :
    Settles all n known 1 (hashPair expr) (hashPair expr') fun _ => [] := by
  refine .bind (he _ .lowest) fun key => .bind (.expect (by decide)) fun _ => ?_
  exact .bind (he _ .lowest) fun value => .pure nofun

theorem settles_opened (he : Able all n expr expr') (ht : n ≤ turns) (ht' : n ≤ turns')
    (kind : TokenKind) (position : Position) (known : List Position) :
    Option.Rel (fun x y => Settles all n known 0 x y fun _ => []) (opened? turns expr kind position)
      (opened? turns' expr' kind position) := by
  have hexpr (level : Precedence) : Settles all n known 0 (expr level) (expr' level) fun _ => [] :=
    (he known level).lax (Nat.zero_le 1)
  unfold opened?
  split
  · exact .some ((hexpr .unary).bind fun e => .pure nofun)
  · exact .some ((hexpr .unary).bind fun e => .pure nofun)
  · refine .some ((hexpr .lowest).bind fun e => ?_)
    exact .bind (.expect (by decide)) fun _ => .pure nofun
  · exact .some (.bind (settles_exprs he (by decide) ht ht' known) fun es => .pure nofun)
  · have hclosing : TokenKind.rightBrace ≠ .endOfText := by decide
    have hpairs := Settles.commaList (settles_hashPair he) hclosing (Nat.le_refl n) ht ht' known
    exact .some (.bind hpairs fun ps => .pure nofun)
  · exact .some (settles_conditional he ht ht' (Nat.le_refl n) ht ht' position known)
  · exact .some (settles_loop he ht ht' position known)
  · exact .some (settles_functionLiteral he ht ht' position known)
  · exact .some ((hexpr .unary).bind fun e => .pure nofun)
  · exact .none

theorem atom?_endOfText {t : Token} (h : t.kind = .endOfText) : atom? t = none := by
  simp [atom?, h]

theorem settles_operand (he : Able all n expr expr') (ht : n ≤ turns) (ht' : n ≤ turns')
    (known : List Position) :
    Settles all (n + 1) known 1 (operand turns expr) (operand turns' expr') fun _ => [] := by
  intro ts hts hlength hknown
  cases ts with
  | nil => exact absurd rfl hts.ended.ne_nil
  | cons t ts =>
    have hhere : Seen all (t :: ts) t.position := seen_head hts.suffix
    simp only [operand]
    cases hatom : atom? t with
    | some result =>
      cases result with
      | error cause => exact ⟨rfl, .error (.refl hts.ended) hhere⟩
      | ok e =>
        have hgoes : t.kind ≠ .endOfText := fun hend => by simp [atom?_endOfText hend] at hatom
        exact ⟨rfl, .ok (.tail hts.ended hgoes) (Nat.le_refl _) (List.forall_mem_nil _)⟩
    | none =>
      dsimp only
      have hrule := settles_opened he ht ht' t.kind t.position known
      have hend : opened? turns expr .endOfText t.position = none := rfl
      generalize hopened : opened? turns expr t.kind t.position = o at hrule
      generalize opened? turns' expr' t.kind t.position = o' at hrule
      cases hrule with
      | none => exact ⟨rfl, .error (.refl hts.ended) hhere⟩
      | some hrule =>
        have hgoes : t.kind ≠ .endOfText := by
          intro hkind
          rw [hkind, hend] at hopened
          cases hopened
        have hl : Left (t :: ts) ts := .tail hts.ended hgoes
        obtain ⟨heq, hout⟩ := hrule ts (hts.trans hl) (Nat.le_of_succ_le_succ hlength)
          fun p hp => (hknown p hp).mono hl
        exact ⟨heq, hout.behind hl (Nat.le_refl _)⟩

/-! ## Expressions that go on behind an operand -/

theorem settles_requireIdentifier (e : Expr) (operator : String) (hp : p ∈ known) :
    Settles all n known 0 (requireIdentifier e operator p) (requireIdentifier e operator p)
      fun _ => [] := by
  unfold requireIdentifier
  split
  · exact .pure nofun
  · exact .failAt _ hp

theorem settles_assignment (he : Able all n expr expr') (target : Expr) (kind : TokenKind)
    (hp : p ∈ known) :
    Settles all n known 0 (assignment expr target kind p) (assignment expr' target kind p)
      fun _ => [] := by
  unfold assignment
  split
  · exact ((he known _).lax (Nat.zero_le 1)).bind fun value => .pure nofun
  · exact .failAt _ hp

/-- What goes on behind an operator may be the fault of the operator, which has been seen. -/
theorem settles_continued (he : Able all n expr expr') (ht : n ≤ turns) (ht' : n ≤ turns')
    (left : Expr) (token : Token) (hp : token.position ∈ known) :
    Settles all n known 0 (continued turns expr left token) (continued turns' expr' left token)
      fun _ => [] := by
  have hexpr (known : List Position) (level : Precedence) :
      Settles all n known 0 (expr level) (expr' level) fun _ => [] :=
    (he known level).lax (Nat.zero_le 1)
  unfold continued
  dsimp only
  split
  · exact (hexpr _ _).bind fun right => .pure nofun
  · split
    · exact settles_assignment he left _ hp
    · exact settles_assignment he left _ hp
    · exact settles_assignment he left _ hp
    · exact settles_assignment he left _ hp
    · exact settles_assignment he left _ hp
    · refine (hexpr _ _).bind fun consequence => .bind (.expect (by decide)) fun _ => ?_
      exact (hexpr _ _).bind fun alternative => .pure nofun
    · exact (hexpr _ _).bind fun right => .pure nofun
    · exact (settles_requireIdentifier left _ hp).bind fun name => .pure nofun
    · exact (settles_requireIdentifier left _ hp).bind fun name => .pure nofun
    · exact .bind (settles_exprs he (by decide) ht ht' _) fun arguments => .pure nofun
    · refine (hexpr _ _).bind fun key => ?_
      exact .bind (.expect (by decide)) fun _ => .pure nofun
    · refine .bind .identifier fun method => .bind (.expect (by decide)) fun _ => ?_
      exact .bind (settles_exprs he (by decide) ht ht' _) fun arguments => .pure nofun
    · refine (settles_requireIdentifier left _ hp).bind fun name => ?_
      exact .bind .identifier fun branch => .pure nofun
    · exact .failAt _ hp

theorem settlesAt_extend (he : Able all n expr expr') (ht : n ≤ turns) (ht' : n ≤ turns')
    (left : Expr) (known : List Position) {kind : TokenKind} (hkind : kind ≠ .endOfText) :
    SettlesAt all (n + 1) known 1 (extend turns expr left) (extend turns' expr' left)
      (fun _ => []) kind := by
  intro ts hts hlength hhead hknown
  cases ts with
  | nil => exact absurd rfl hts.ended.ne_nil
  | cons t ts =>
    have hl : Left (t :: ts) ts := .tail hts.ended fun hend => hkind (hhead.symm.trans hend)
    have hseen : ∀ p ∈ t.position :: known, Seen all ts p := by
      refine List.forall_mem_cons.mpr ⟨(seen_head hts.suffix).mono hl, fun p hp => ?_⟩
      exact (hknown p hp).mono hl
    obtain ⟨heq, hout⟩ := settles_continued he ht ht' left t List.mem_cons_self ts (hts.trans hl)
      (Nat.le_of_succ_le_succ hlength) hseen
    exact ⟨heq, hout.behind hl (Nat.le_refl _)⟩

theorem settles_climb (he : Able all n expr expr') (ht : n ≤ turns) (ht' : n ≤ turns')
    (level : Precedence) {left left' : Nat} (hm : m ≤ n + 1) (hl : m ≤ left) (hl' : m ≤ left')
    (operand : Expr) (known : List Position) :
    Settles all m known 0 (climb turns expr level left operand)
      (climb turns' expr' level left' operand) fun _ => [] := by
  induction left generalizing left' m operand known with
  | zero => exact .vacuous hl
  | succ left ih =>
    cases left' with
    | zero => exact .vacuous hl'
    | succ left' =>
      refine .peekKind_bind fun kind => ?_
      split
      · rename_i hlevel
        have hkind : kind ≠ .endOfText := by
          rintro rfl
          exact Nat.not_lt_zero _ hlevel
        intro ts hts hlength hhead
        have hextend := settlesAt_extend he ht ht' operand known hkind ts hts
          (hlength.trans hm) hhead
        refine hextend.bind (m := m - 1) hts (by omega) fun e => ?_
        exact ih (by omega) (by omega) (by omega) e _
      · exact Settles.here (.pure (by simp)) kind

/-- Expressions settle where there are as many levels of nesting as tokens. The induction is on the
levels: a nested expression stands behind a token that has been taken. -/
theorem able_expression {k k' : Nat} (hk : n ≤ k) (hk' : n ≤ k') :
    Able all n (expression k) (expression k') := by
  induction k generalizing k' n with
  | zero => exact fun _ _ => .vacuous hk
  | succ k ih =>
    cases k' with
    | zero => exact fun _ _ => .vacuous hk'
    | succ k' =>
      cases n with
      | zero => exact fun _ _ => .vacuous (Nat.le_refl 0)
      | succ n =>
        intro known level
        have hn : n ≤ k := Nat.le_of_succ_le_succ hk
        have hn' : n ≤ k' := Nat.le_of_succ_le_succ hk'
        have he := ih hn hn'
        refine .bindLess (m := n) (settles_operand he hn hn' known) (Nat.le_refl _) fun left => ?_
        exact settles_climb he hn hn' level (Nat.le_succ n) hn hn' left _

/-! ## The loop over statements -/

/-- What a statement reads, whatever the numbers of turns and levels from the number of tokens
on. -/
def ReadsStatement (ts : List Token) (r : EStateM.Result ParseError (List Token) Statement) :
    Prop :=
  ∀ turns levels, ts.length ≤ turns → ts.length ≤ levels →
    statement turns (expression levels) ts = r

theorem readsStatement (h : Ended ts) : ReadsStatement ts (parseStatement ts) := by
  intro turns levels hturns hlevels
  have hroom := Nat.le_succ ts.length
  exact (settles_statement (able_expression hroom hlevels) hroom hturns [] ts (.refl h)
    (Nat.le_refl _) nofun).1

theorem outcome_parseStatement (h : Ended ts) :
    Outcome ts ts 1 (fun _ => []) (parseStatement ts) := by
  have hroom := Nat.le_succ ts.length
  exact (settles_statement (able_expression hroom hroom) hroom hroom [] ts (.refl h)
    (Nat.le_refl _) nofun).2

/-- A run of the loop over statements, which has no number of turns: it goes on until it comes to
the end of the text. -/
inductive Recovers : Bool → List Token → ParseResult → Prop
  | done (recovering : Bool) {ts : List Token} (h : headKind (afterSemicolons ts) = .endOfText) :
      Recovers recovering ts ⟨[], []⟩
  | brace {ts : List Token} {result : ParseResult}
      (h : headKind (afterSemicolons ts) = .rightBrace)
      (hrest : Recovers true ((afterSemicolons ts).drop 1) result) : Recovers true ts result
  | statement {recovering : Bool} {ts rest : List Token} {first : Statement}
      {result : ParseResult} (hend : headKind (afterSemicolons ts) ≠ .endOfText)
      (hbrace : ¬(recovering = true ∧ headKind (afterSemicolons ts) = .rightBrace))
      (h : ReadsStatement (afterSemicolons ts) (.ok first rest))
      (hrest : Recovers false rest result) :
      Recovers recovering ts ⟨first :: result.program, result.errors⟩
  | error {recovering : Bool} {ts rest : List Token} {e : ParseError} {result : ParseResult}
      (hend : headKind (afterSemicolons ts) ≠ .endOfText)
      (hbrace : ¬(recovering = true ∧ headKind (afterSemicolons ts) = .rightBrace))
      (h : ReadsStatement (afterSemicolons ts) (.error e rest))
      (hrest : Recovers true (synchronized rest) result) :
      Recovers recovering ts ⟨result.program, e :: result.errors⟩

theorem length_synchronized_lt (hne : ts ≠ []) (hend : headKind ts ≠ .endOfText)
    (hbrace : headKind ts ≠ .rightBrace) : (synchronized ts).length < ts.length := by
  cases ts with
  | nil => exact absurd rfl hne
  | cons t ts =>
    have hshort := (suffix_synchronized ts).length_le
    simp only [headKind] at hend hbrace
    unfold synchronized
    split
    · simp
    · contradiction
    · contradiction
    · simp only [List.length_cons]
      omega

/-- The loop comes to the end: a turn takes a token, except that one that fails before a closing
brace leaves the brace to the next turn. -/
theorem recovers_statements {turns : Nat} {recovering : Bool} (hts : Ended ts)
    (hturns : 2 * ts.length + 1 ≤ turns + recovering.toNat) :
    Recovers recovering ts (statements turns recovering ts) := by
  induction turns generalizing recovering ts with
  | zero =>
    have hpos := hts.length_pos
    have hone := Bool.toNat_le recovering
    omega
  | succ turns ih =>
    have hafter := hts.afterSemicolons
    have hshort := (suffix_afterSemicolons ts).length_le
    by_cases hend : headKind (afterSemicolons ts) = .endOfText
    · rw [statements_at_end turns recovering hend]
      exact .done recovering hend
    by_cases hbrace : recovering = true ∧ headKind (afterSemicolons ts) = .rightBrace
    · obtain ⟨rfl, hbrace⟩ := hbrace
      rw [statements_at_brace turns hbrace]
      refine .brace hbrace (ih ?_ ?_)
      · generalize afterSemicolons ts = us at hafter hbrace
        cases us with
        | nil => exact absurd rfl hafter.ne_nil
        | cons t us =>
          have hkind : t.kind = .rightBrace := hbrace
          exact hafter.tail (by simp [hkind])
      · have hpos := hafter.length_pos
        simp only [List.length_drop, Bool.toNat_true] at hturns ⊢
        omega
    · have hread := readsStatement hafter
      have hout := outcome_parseStatement hafter
      rw [statements_succ turns hend hbrace]
      generalize parseStatement (afterSemicolons ts) = r at hread hout
      cases hout with
      | ok hl ht _ =>
        have hone := Bool.toNat_le recovering
        refine .statement hend hbrace hread (ih hl.ended ?_)
        simp only [Bool.toNat_false]
        omega
      | @error e rest hl _ =>
        refine .error hend hbrace hread (ih hl.ended.synchronized ?_)
        have hsync := (suffix_synchronized rest).length_le
        have hle := hl.suffix.length_le
        simp only [Bool.toNat_true]
        cases recovering with
        | false =>
          simp only [Bool.toNat_false] at hturns
          omega
        | true =>
          -- Only a first error may take no token.
          have hless : (synchronized rest).length < (afterSemicolons ts).length := by
            rcases Nat.lt_or_ge rest.length (afterSemicolons ts).length with hlt | hge
            · omega
            · rw [hl.suffix.eq_of_length_le hge]
              exact length_synchronized_lt hafter.ne_nil hend fun h => hbrace ⟨rfl, h⟩
          simp only [Bool.toNat_true] at hturns
          omega

/-! ## The errors of a run -/

/-- The tokens that the loop may still report: not the closing brace of a block that was given
up. -/
def ahead (recovering : Bool) (ts : List Token) : List Token :=
  if recovering = true ∧ headKind (afterSemicolons ts) = .rightBrace then
    (afterSemicolons ts).drop 1
  else afterSemicolons ts

theorem ahead_suffix (recovering : Bool) (ts : List Token) : ahead recovering ts <:+ ts := by
  unfold ahead
  split
  · exact (List.drop_suffix 1 _).trans (suffix_afterSemicolons ts)
  · exact suffix_afterSemicolons ts

/-- Behind an error the loop reports nothing up to the token that it stopped at. -/
theorem ahead_synchronized {t : Token} (ht : t.kind ≠ .endOfText) :
    ahead true (synchronized (t :: rest)) <:+ rest := by
  unfold synchronized
  split
  · exact ahead_suffix true rest
  · rename_i hbrace
    have hkept : afterSemicolons (t :: rest) = t :: rest := by simp [afterSemicolons, hbrace]
    simp [ahead, hkept, headKind, hbrace]
  · contradiction
  · exact (ahead_suffix true _).trans (suffix_synchronized rest)

/-- The errors of a run are about tokens of the text, in the order of the text, and there is a
token for each statement and each error besides the end of the text. -/
structure Accounts (ts : List Token) (result : ParseResult) : Prop where
  places : ∀ e ∈ result.errors, ∃ t ∈ ts, e.position = t.position
  increasing : (result.errors.map ParseError.position).Pairwise Position.Before
  count : result.program.length + result.errors.length + 1 ≤ ts.length

theorem Accounts.mono {result : ParseResult} (h : Accounts rest result) (hs : rest <:+ ts) :
    Accounts ts result := by
  refine ⟨fun e he => ?_, h.increasing, h.count.trans hs.length_le⟩
  obtain ⟨t, ht, heq⟩ := h.places e he
  exact ⟨t, hs.mem ht, heq⟩

/-- The places of tokens stand in the order of the text. -/
def Ordered (ts : List Token) : Prop := (ts.map Token.position).Pairwise Position.Before

theorem Ordered.suffix (h : Ordered ts) (hs : rest <:+ ts) : Ordered rest :=
  h.sublist (hs.sublist.map _)

/-- An error stands before all that is reported behind the token where it was found. -/
theorem Accounts.error {e : ParseError} {t : Token} {result : ParseResult}
    (h : Accounts rest result) (hl : t :: rest <:+ us) (hseen : Seen us (t :: rest) e.position)
    (hordered : Ordered us) : Accounts us ⟨result.program, e :: result.errors⟩ := by
  obtain ⟨before, rfl, hplace⟩ := hseen
  rw [List.take_succ_cons, List.take_zero] at hplace
  have hsplit : before ++ t :: rest = (before ++ [t]) ++ rest := by simp
  obtain ⟨u, hu, hposition⟩ := List.mem_map.mp hplace
  refine ⟨List.forall_mem_cons.mpr ⟨⟨u, ?_, hposition.symm⟩, ?_⟩, ?_, ?_⟩
  · rw [hsplit]
    exact List.mem_append_left _ hu
  · intro e' he'
    obtain ⟨v, hv, heq⟩ := h.places e' he'
    exact ⟨v, by simp [hv], heq⟩
  · refine List.pairwise_cons.mpr ⟨?_, h.increasing⟩
    intro p hp
    obtain ⟨e', he', rfl⟩ := List.mem_map.mp hp
    obtain ⟨v, hv, heq⟩ := h.places e' he'
    rw [Ordered, hsplit, List.map_append, List.pairwise_append] at hordered
    rw [heq]
    exact hordered.2.2 _ hplace _ (List.mem_map_of_mem hv)
  · have hcount := h.count
    simp only [List.length_cons, List.length_append] at hcount ⊢
    omega

/-- An error before the end of the text may be found there, and it is the last one then. -/
theorem accounts_last {e : ParseError} (hl : Left us rest) (hseen : Seen us rest e.position)
    (hend : headKind rest = .endOfText) (hgoes : headKind us ≠ .endOfText) :
    Accounts us ⟨[], [e]⟩ := by
  have hlength : rest.length < us.length := by
    refine lt_of_le_of_ne hl.suffix.length_le fun heq => hgoes ?_
    rw [← hl.suffix.eq_of_length heq, hend]
  have hpos := hl.ended.length_pos
  refine ⟨fun e' he' => ?_, List.pairwise_singleton _ _, ?_⟩
  · obtain ⟨before, rfl, hplace⟩ := hseen
    obtain ⟨t, ht, hposition⟩ := List.mem_map.mp hplace
    have hmem : t ∈ before ++ rest :=
      ((List.take_sublist 1 rest).append_left before).subset ht
    rw [List.mem_singleton.mp he']
    exact ⟨t, hmem, hposition.symm⟩
  · simp only [List.length_nil, List.length_singleton]
    omega

theorem outcome_of_readsStatement {r : EStateM.Result ParseError (List Token) Statement}
    (hts : Ended ts) (h : ReadsStatement ts r) : Outcome ts ts 1 (fun _ => []) r := by
  have hread := readsStatement hts ts.length ts.length (Nat.le_refl _) (Nat.le_refl _)
  rw [← h ts.length ts.length (Nat.le_refl _) (Nat.le_refl _), hread]
  exact outcome_parseStatement hts

/-- Where the end of the text has come, a run has nothing more to report. -/
theorem Recovers.eq_nil {recovering : Bool} {result : ParseResult}
    (h : Recovers recovering ts result) (hend : headKind (afterSemicolons ts) = .endOfText) :
    result = ⟨[], []⟩ := by
  cases h with
  | done => rfl
  | brace hbrace => simp [hend] at hbrace
  | statement hgoes | error hgoes => exact absurd hend hgoes

theorem Recovers.accounts {recovering : Bool} {result : ParseResult}
    (h : Recovers recovering ts result) (hts : Ended ts) (hordered : Ordered ts) :
    Accounts (ahead recovering ts) result := by
  induction h with
  | @done recovering ts hend =>
    have hahead : ahead recovering ts = afterSemicolons ts := by simp [ahead, hend]
    rw [hahead]
    exact ⟨by simp, by simp, hts.afterSemicolons.length_pos⟩
  | @brace ts result hbrace _ ih =>
    have hahead : ahead true ts = (afterSemicolons ts).drop 1 := by simp [ahead, hbrace]
    have hsuffix := suffix_afterSemicolons ts
    have hafter := hts.afterSemicolons
    rw [hahead]
    generalize afterSemicolons ts = us at hbrace hsuffix hafter ih
    cases us with
    | nil => exact absurd rfl hafter.ne_nil
    | cons t us =>
      have hkind : t.kind = .rightBrace := hbrace
      have hordered' := hordered.suffix ((List.suffix_cons t us).trans hsuffix)
      exact (ih (hafter.tail (by simp [hkind])) hordered').mono (ahead_suffix true us)
  | @statement recovering ts rest first result hend hbrace hread _ ih =>
    have hahead : ahead recovering ts = afterSemicolons ts := if_neg hbrace
    rw [hahead]
    cases outcome_of_readsStatement hts.afterSemicolons hread with
    | ok hl htaken _ =>
      have hordered' := hordered.suffix (hl.suffix.trans (suffix_afterSemicolons ts))
      have hrest := (ih hl.ended hordered').mono (ahead_suffix false rest)
      refine ⟨(hrest.mono hl.suffix).places, hrest.increasing, ?_⟩
      have hcount := hrest.count
      simp only [List.length_cons]
      omega
  | @error recovering ts rest e result hend hbrace hread hrest ih =>
    have hahead : ahead recovering ts = afterSemicolons ts := if_neg hbrace
    rw [hahead]
    have hordered' := hordered.suffix (suffix_afterSemicolons ts)
    cases outcome_of_readsStatement hts.afterSemicolons hread with
    | error hl hseen =>
      cases rest with
      | nil => exact absurd rfl hl.ended.ne_nil
      | cons t rest =>
        by_cases ht : t.kind = .endOfText
        · have hstop : headKind (afterSemicolons (synchronized (t :: rest))) = .endOfText := by
            simp [synchronized, afterSemicolons, headKind, ht]
          rw [hrest.eq_nil hstop]
          exact accounts_last hl hseen ht hend
        · have hsync := suffix_synchronized (t :: rest)
          have hlater := ih hl.ended.synchronized (hordered'.suffix (hsync.trans hl.suffix))
          exact (hlater.mono (ahead_synchronized ht)).error hl.suffix hseen hordered'

theorem ended_tokenize (source : String) : Ended (tokenize source) :=
  ⟨_, _, tokenize_eq source, rfl, kind_ne_endOfText .start source.toList⟩

theorem ordered_tokenize (source : String) : Ordered (tokenize source) :=
  (inOrder_tokenize source).increasing

end Parser

/-- Reading a text comes to its end by itself: the bound on the turns of the loop plays no part, nor
do those on a statement. The errors are about tokens of the text, in its order, and with the
statements they are no more than the tokens. A sign that is no token of the language is never
passed over. -/
theorem reading_recovers (source : String) :
    Parser.Recovers false (tokenize source) (parseProgram source) ∧
      (∀ e ∈ (parseProgram source).errors, ∃ t ∈ tokenize source, e.position = t.position) ∧
      ((parseProgram source).errors.map ParseError.position).Pairwise Position.Before ∧
      (parseProgram source).program.length + (parseProgram source).errors.length ≤
        (tokenize source).length ∧
      ((∃ t ∈ tokenize source, t.kind = .illegal) → (parseProgram source).errors ≠ []) := by
  have hts := Parser.ended_tokenize source
  have hruns : Parser.Recovers false (tokenize source) (parseProgram source) :=
    Parser.recovers_statements hts (Nat.le_refl _)
  have haccounts := (hruns.accounts hts (Parser.ordered_tokenize source)).mono
    (Parser.ahead_suffix false (tokenize source))
  have hcount := haccounts.count
  refine ⟨hruns, haccounts.places, haccounts.increasing, by omega, ?_⟩
  rintro ⟨t, ht, hillegal⟩ hread
  exact Parser.legal_of_read hread t ht hillegal

/-- A sign that is no token, and a bracket that opens nothing. The closing brace between them is
left over from the broken statement. -/
theorem two_faults_are_reported :
    let source := "var x = @ 1; \x7d y )"
    (∃ t ∈ tokenize source, t.kind = .illegal) ∧ (parseProgram source).errors ≠ [] ∧
      (parseProgram source).errors.map ParseError.position = [⟨1, 9⟩, ⟨1, 18⟩] ∧
      ∀ e ∈ (parseProgram source).errors, ∃ t ∈ tokenize source, e.position = t.position := by
  intro source
  obtain ⟨-, hplaces, -, -, hillegal⟩ := reading_recovers source
  have hsign : ∃ t ∈ tokenize source, t.kind = .illegal :=
    ⟨⟨.illegal, "@", ⟨1, 9⟩⟩, by decide +kernel, rfl⟩
  exact ⟨hsign, hillegal hsign, by cbv, hplaces⟩

end ScriptLang
