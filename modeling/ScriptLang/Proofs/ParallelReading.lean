-- Two texts read side by side. Their tokens have the same kinds and literals at places that may
-- differ, so the parser decides alike on both. The second text may also go on where the first one
-- ends: a semicolon stands there in place of the end, and more tokens behind it. Then whatever
-- the parser reads from the first text it reads from the second, up to that semicolon.
import ScriptLang.Parser.Program
import ScriptLang.Proofs.Alike
import ScriptLang.Proofs.Canonical

namespace ScriptLang

/-- Trees that are alike, wherever they stand. -/
abbrev SameTree (a b : Node) : Prop := Alike (fun _ _ => True) a b

namespace Parser

/-! ## Tokens that stand beside each other -/

/-- Where the second text goes on: the kind of the first text's token there, which cannot be read,
and the tokens behind the second text's semicolon. -/
structure Joint where
  kind : TokenKind
  more : List Token
  ends : kind = .endOfText ∨ kind = .illegal

/-- Tokens of the same kinds and literals, up to the joint if there is one. -/
inductive Beside (joint : Option Joint) : List Token → List Token → Prop
  | nil (h : joint = none) : Beside joint [] []
  | seam {j : Joint} (h : joint = some j) {last semicolon : Token} {tail : List Token}
      (hlast : last.kind = j.kind) (hsemicolon : semicolon.kind = .semicolon)
      (hlength : tail.length ≤ j.more.length) :
      Beside joint (last :: tail) (semicolon :: j.more)
  | cons {t t' : Token} {ts ts' : List Token} (h : t.shape = t'.shape)
      (hgoes : joint ≠ none → t.kind ≠ .endOfText) (hs : Beside joint ts ts') :
      Beside joint (t :: ts) (t' :: ts')

variable {joint : Option Joint} {ts ts' : List Token} {α β γ δ : Type}

theorem kind_eq_of_shape {t t' : Token} (h : t.shape = t'.shape) : t.kind = t'.kind :=
  congrArg Prod.fst h

theorem literal_eq_of_shape {t t' : Token} (h : t.shape = t'.shape) : t.literal = t'.literal :=
  congrArg Prod.snd h

/-- At the seam the kinds of the next tokens differ; elsewhere they are the same. -/
theorem Beside.cases_head (h : Beside joint ts ts') :
    headKind ts = headKind ts' ∨
      ∃ j last tail semicolon, joint = some j ∧ last.kind = j.kind ∧
        semicolon.kind = .semicolon ∧ tail.length ≤ j.more.length ∧
        ts = last :: tail ∧ ts' = semicolon :: j.more := by
  cases h with
  | nil h => exact .inl rfl
  | seam h hlast hsemicolon hlength =>
    exact .inr ⟨_, _, _, _, h, hlast, hsemicolon, hlength, rfl, rfl⟩
  | cons h hgoes hs => exact .inl (kind_eq_of_shape h)

/-- Room for so many turns in the first reading and so many in the second. -/
def Room : Option Joint → Nat → Nat → Prop
  | none, n, n' => n = n'
  | some _, n, n' => n ≤ n'

theorem Room.succ {n n' : Nat} (h : Room joint n n') : Room joint (n + 1) (n' + 1) := by
  cases joint with
  | none => exact congrArg (· + 1) h
  | some j => exact Nat.succ_le_succ h

theorem Beside.room (h : Beside joint ts ts') : Room joint ts.length ts'.length := by
  induction h with
  | nil h =>
    subst h
    rfl
  | seam h _ _ hlength =>
    subst h
    exact Nat.succ_le_succ hlength
  | cons _ _ _ ih => exact ih.succ

/-! ## Readings that agree -/

/-- The results of two readings agree: both give trees that are alike or both fail for the same
cause. Where the second text goes on, nothing is said of a first reading that fails. -/
inductive Agree (joint : Option Joint) (R : α → β → Prop) :
    EStateM.Result ParseError (List Token) α → EStateM.Result ParseError (List Token) β → Prop
  | ok {a : α} {b : β} {ts ts' : List Token} (h : R a b) (hs : Beside joint ts ts') :
      Agree joint R (.ok a ts) (.ok b ts')
  | error (hjoint : joint = none) {e e' : ParseError} {ts ts' : List Token}
      (h : e.cause = e'.cause) (hs : Beside joint ts ts') :
      Agree joint R (.error e ts) (.error e' ts')
  | failed (hjoint : joint ≠ none) (e : ParseError) (ts : List Token)
      (r : EStateM.Result ParseError (List Token) β) : Agree joint R (.error e ts) r

/-- Parsers whose readings agree on all tokens that stand beside each other. -/
def Together (joint : Option Joint) (R : α → β → Prop) (x : Parser α) (y : Parser β) : Prop :=
  ∀ ts ts', Beside joint ts ts' → Agree joint R (x ts) (y ts')

/-- A parser that fails on tokens. -/
def Fails (x : Parser α) (ts : List Token) : Prop := ∃ e rest, x ts = .error e rest

/-- A parser that fails where the first text ends. -/
def FailsAtSeam (joint : Option Joint) (x : Parser α) : Prop :=
  ∀ j last tail, joint = some j → last.kind = j.kind → Fails x (last :: tail)

theorem bind_eq (x : Parser α) (f : α → Parser β) (ts : List Token) :
    (x >>= f) ts = match x ts with
      | .ok a rest => f a rest
      | .error e rest => .error e rest := by
  change EStateM.bind x f ts = _
  unfold EStateM.bind
  cases x ts <;> rfl

theorem Fails.bind {x : Parser α} {f : α → Parser β} (h : Fails x ts) : Fails (x >>= f) ts := by
  obtain ⟨e, rest, h⟩ := h
  exact ⟨e, rest, by rw [bind_eq, h]⟩

/-- A parser that goes on with one that fails. -/
theorem Fails.behind {x : Parser α} {f : α → Parser β} {a : α} {rest : List Token}
    (hx : x ts = .ok a rest) (h : Fails (f a) rest) : Fails (x >>= f) ts := by
  obtain ⟨e, left, h⟩ := h
  exact ⟨e, left, by rw [bind_eq, hx, ← h]⟩

namespace Agree

variable {R : α → β → Prop} {S : γ → δ → Prop}

theorem errors {e e' : ParseError} (h : e.cause = e'.cause) (hs : Beside joint ts ts') :
    Agree joint R (.error e ts) (.error e' ts') := by
  by_cases hjoint : joint = none
  · exact .error hjoint h hs
  · exact .failed hjoint _ _ _

theorem of_fails {j : Joint} (hjoint : joint = some j) {x : Parser α} (h : Fails x ts)
    (r : EStateM.Result ParseError (List Token) β) : Agree joint R (x ts) r := by
  obtain ⟨e, rest, h⟩ := h
  rw [h]
  exact .failed (by simp [hjoint]) _ _ _

/-- A first reading that fails where the first text ends. -/
theorem at_seam {j : Joint} (hjoint : joint = some j) {x : Parser α} (h : FailsAtSeam joint x)
    (hs : Beside joint ts ts') (hkind : headKind ts = j.kind)
    (r : EStateM.Result ParseError (List Token) β) : Agree joint R (x ts) r := by
  cases hs with
  | nil hnone => cases hjoint.symm.trans hnone
  | seam hj => exact .of_fails hjoint (h j _ _ hjoint hkind) r
  | cons => exact .of_fails hjoint (h j _ _ hjoint hkind) r

theorem bind {x : Parser α} {y : Parser β} {f : α → Parser γ} {g : β → Parser δ}
    (h : Agree joint R (x ts) (y ts')) (hf : ∀ a b, R a b → Together joint S (f a) (g b)) :
    Agree joint S ((x >>= f) ts) ((y >>= g) ts') := by
  rw [bind_eq, bind_eq]
  generalize x ts = r at h
  generalize y ts' = r' at h
  cases h with
  | ok hab hs => exact hf _ _ hab _ _ hs
  | error hjoint hc hs => exact .error hjoint hc hs
  | failed hjoint e rest r' => exact .failed hjoint _ _ _

end Agree

namespace Together

variable {R : α → β → Prop} {S : γ → δ → Prop}

theorem pure {a : α} {b : β} (h : R a b) : Together joint R (pure a) (pure b) :=
  fun _ _ hs => .ok h hs

theorem bind {x : Parser α} {y : Parser β} {f : α → Parser γ} {g : β → Parser δ}
    (h : Together joint R x y) (hf : ∀ a b, R a b → Together joint S (f a) (g b)) :
    Together joint S (x >>= f) (y >>= g) :=
  fun _ _ hs => (h _ _ hs).bind hf

theorem thenSame {x y : Parser α} {f : α → Parser γ} {g : α → Parser δ}
    (h : Together joint Eq x y) (hf : ∀ a, Together joint S (f a) (g a)) :
    Together joint S (x >>= f) (y >>= g) := by
  refine h.bind ?_
  rintro a _ rfl
  exact hf a

theorem failAt {cause cause' : ParseCause} (p p' : Position) (h : cause = cause') :
    Together joint R (failAt p cause) (failAt p' cause') :=
  fun _ _ hs => .errors h hs

theorem peekPosition : Together joint (fun _ _ => True) peekPosition peekPosition :=
  fun _ _ hs => .ok trivial hs

/-- Out of turns, two readings side by side fail alike; a first reading that runs out of turns
earlier just fails. -/
theorem outOfTurns : Together joint R outOfTurns outOfTurns := by
  intro ts ts' hs
  rcases hs.cases_head with hkind | ⟨j, -, -, -, hjoint, -⟩
  · exact .errors (congrArg ParseCause.noExpression hkind) hs
  · exact .failed (by simp [hjoint]) _ _ _

/-- A loop that has run out of turns, beside a loop that has room for as many. -/
theorem noTurns {n : Nat} (h : Room joint 0 n) {y : Nat → Parser β}
    (hy : y 0 = Parser.outOfTurns) : Together joint R Parser.outOfTurns (y n) := by
  cases joint with
  | none =>
    cases h
    rw [hy]
    exact outOfTurns
  | some j => exact fun _ _ _ => .failed (Option.some_ne_none j) _ _ _

end Together

/-- A loop with another turn, beside a loop that has room for as many. -/
theorem Room.cases_succ {n n' : Nat} (h : Room joint (n + 1) n') :
    ∃ k, n' = k + 1 ∧ Room joint n k := by
  cases joint with
  | none => exact ⟨n, h.symm, rfl⟩
  | some j =>
    have hle : n + 1 ≤ n' := h
    exact ⟨n' - 1, by omega, by change n ≤ n' - 1; omega⟩

/-! ## Single tokens -/

/-- The kinds that stand neither at the end of a text nor at a joint. -/
def isInner (kind : TokenKind) : Bool :=
  kind ≠ .semicolon && kind ≠ .endOfText && kind ≠ .illegal

theorem Joint.kind_ne (j : Joint) {kind : TokenKind} (h : kind ≠ .endOfText)
    (h' : kind ≠ .illegal) : j.kind ≠ kind := by
  rcases j.ends with hj | hj <;> rw [hj]
  · exact h.symm
  · exact h'.symm

theorem take?_cons_of_ne {t : Token} {kind : TokenKind} (h : t.kind ≠ kind) :
    take? kind (t :: ts) = .ok none (t :: ts) := if_neg h

theorem take?_cons_of_eq {t : Token} {kind : TokenKind} (h : t.kind = kind) :
    take? kind (t :: ts) = .ok (some t) ts := if_pos h

theorem eat_cons_of_eq {t : Token} {kind : TokenKind} (h : t.kind = kind) :
    eat kind (t :: ts) = .ok true ts := by
  unfold eat
  rw [bind_eq, take?_cons_of_eq h]
  rfl

theorem eat_cons_of_ne {t : Token} {kind : TokenKind} (h : t.kind ≠ kind) :
    eat kind (t :: ts) = .ok false (t :: ts) := by
  unfold eat
  rw [bind_eq, take?_cons_of_ne h]
  rfl

/-- Where the first text ends, no token is taken. -/
theorem eat_at_seam {j : Joint} {last : Token} (hlast : last.kind = j.kind) {kind : TokenKind}
    (hend : kind ≠ .endOfText) (hillegal : kind ≠ .illegal) (tail : List Token) :
    eat kind (last :: tail) = .ok false (last :: tail) :=
  eat_cons_of_ne (hlast ▸ j.kind_ne hend hillegal)

theorem fails_expect {kind : TokenKind} (hend : kind ≠ .endOfText) (hillegal : kind ≠ .illegal) :
    FailsAtSeam joint (expect kind) := by
  intro j last tail hj hlast
  have hne : last.kind ≠ kind := hlast ▸ j.kind_ne hend hillegal
  exact Fails.behind (take?_cons_of_ne hne) ⟨_, _, rfl⟩

namespace Together

variable {R : α → β → Prop} {S : γ → δ → Prop}

theorem take? {kind : TokenKind} (hkind : isInner kind = true) :
    Together joint (Option.Rel fun t t' => t.shape = t'.shape) (take? kind) (take? kind) := by
  simp only [isInner, Bool.and_eq_true, decide_eq_true_eq] at hkind
  obtain ⟨⟨hsemicolon, hend⟩, hillegal⟩ := hkind
  intro ts ts' hs
  cases hs with
  | nil h => exact .ok .none (.nil h)
  | @seam j h last semicolon tail hlast hsemi hlength =>
    have hne : last.kind ≠ kind := hlast ▸ j.kind_ne hend hillegal
    have hne' : semicolon.kind ≠ kind := hsemi ▸ hsemicolon.symm
    rw [take?_cons_of_ne hne, take?_cons_of_ne hne']
    exact .ok .none (.seam h hlast hsemi hlength)
  | @cons t t' ts ts' h hgoes hs =>
    have hsame := kind_eq_of_shape h
    by_cases hk : t.kind = kind
    · rw [take?_cons_of_eq hk, take?_cons_of_eq (hsame ▸ hk)]
      exact .ok (.some h) hs
    · rw [take?_cons_of_ne hk, take?_cons_of_ne (hsame ▸ hk)]
      exact .ok .none (.cons h hgoes hs)

theorem eat {kind : TokenKind} (hkind : isInner kind = true) :
    Together joint Eq (eat kind) (eat kind) := by
  refine (take? hkind).bind fun o o' h => ?_
  cases h with
  | none => exact .pure rfl
  | some h => exact .pure rfl

theorem failUnexpected (expected : TokenKind) :
    Together joint R (failUnexpected expected) (failUnexpected expected) := by
  intro ts ts' hs
  cases hs with
  | nil h => exact .errors rfl (.nil h)
  | seam h => exact .failed (by simp [h]) _ _ _
  | @cons t t' ts ts' h hgoes hs =>
    refine .errors ?_ (.cons h hgoes hs)
    unfold unexpected
    dsimp only
    rw [kind_eq_of_shape h, literal_eq_of_shape h]
    split <;> rfl

/-- A token that has to be there. A semicolon is missing at the end of the first text. -/
theorem expect {kind : TokenKind} (hend : kind ≠ .endOfText) (hillegal : kind ≠ .illegal) :
    Together joint (fun t t' => t.shape = t'.shape) (expect kind) (expect kind) := by
  by_cases hsemicolon : kind = .semicolon
  · subst hsemicolon
    intro ts ts' hs
    cases hs with
    | nil h => exact .errors rfl (.nil h)
    | @seam j h last semicolon tail hlast =>
      exact .of_fails h (fails_expect hend hillegal j last tail h hlast) _
    | @cons t t' ts ts' h hgoes hs =>
      have hsame := kind_eq_of_shape h
      unfold Parser.expect
      rw [bind_eq, bind_eq]
      by_cases hk : t.kind = .semicolon
      · rw [take?_cons_of_eq hk, take?_cons_of_eq (hsame ▸ hk)]
        exact .ok h hs
      · rw [take?_cons_of_ne hk, take?_cons_of_ne (hsame ▸ hk)]
        exact failUnexpected _ _ _ (.cons h hgoes hs)
  · have hinner : isInner kind = true := by simp [isInner, hsemicolon, hend, hillegal]
    refine (take? hinner).bind fun o o' h => ?_
    cases h with
    | none => exact failUnexpected kind
    | some h => exact .pure h

theorem identifier : Together joint Eq identifier identifier :=
  .bind (.expect (by decide) (by decide)) fun _ _ h => .pure (literal_eq_of_shape h)

/-! ## Looking ahead -/

/-- Parsers whose readings agree where tokens of one kind are next. -/
def At (joint : Option Joint) (kind : TokenKind) (S : γ → δ → Prop) (x : Parser γ)
    (y : Parser δ) : Prop :=
  ∀ ts ts', Beside joint ts ts' → headKind ts = kind → headKind ts' = kind →
    Agree joint S (x ts) (y ts')

theorem here {x : Parser γ} {y : Parser δ} (h : Together joint S x y) (kind : TokenKind) :
    At joint kind S x y := fun ts ts' hs _ _ => h ts ts' hs

/-- A parser that looks at the kind of the next token. -/
theorem peekKind_bind {f : TokenKind → Parser γ} {g : TokenKind → Parser δ}
    (h : ∀ kind, At joint kind S (f kind) (g kind))
    (hseam : ∀ j, joint = some j → ∀ ts ts', Beside joint ts ts' → headKind ts = j.kind →
      Agree joint S (f j.kind ts) (g .semicolon ts')) :
    Together joint S (peekKind >>= f) (peekKind >>= g) := by
  intro ts ts' hs
  rw [bind_eq, bind_eq]
  change Agree joint S (f (headKind ts) ts) (g (headKind ts') ts')
  rcases hs.cases_head with hkind | ⟨j, last, tail, semicolon, hjoint, hlast, hsemi, -, rfl, rfl⟩
  · rw [← hkind]
    exact h _ ts ts' hs rfl hkind.symm
  · have hj := hseam j hjoint _ _ hs hlast
    change Agree joint S (f last.kind _) (g semicolon.kind _)
    rw [hlast, hsemi]
    exact hj

/-- Behind a semicolon that may be missing stands what cannot stand at the end of a text. -/
theorem eatSemicolon_bind {x : Parser γ} {y : Parser δ} (h : Together joint S x y)
    (hfails : FailsAtSeam joint x) :
    Together joint S (Parser.eat .semicolon >>= fun _ => x)
      (Parser.eat .semicolon >>= fun _ => y) := by
  intro ts ts' hs
  cases hs with
  | nil hj => exact h _ _ (.nil hj)
  | @seam j hj last semicolon tail hlast =>
    have heat := eat_at_seam hlast (by decide : TokenKind.semicolon ≠ .endOfText) (by decide) tail
    exact .of_fails hj (Fails.behind heat (hfails j last tail hj hlast)) _
  | @cons t t' ts ts' hshape hgoes hs =>
    have hsame := kind_eq_of_shape hshape
    unfold Parser.eat
    rw [bind_eq, bind_eq, bind_eq, bind_eq]
    by_cases hk : t.kind = .semicolon
    · rw [take?_cons_of_eq hk, take?_cons_of_eq (hsame ▸ hk)]
      exact h _ _ hs
    · rw [take?_cons_of_ne hk, take?_cons_of_ne (hsame ▸ hk)]
      exact h _ _ (.cons hshape hgoes hs)

end Together

/-- Behind the semicolons the tokens still stand beside each other, unless the first text ends
there. -/
theorem Beside.afterSemicolons (h : Beside joint ts ts') :
    Beside joint (afterSemicolons ts) (afterSemicolons ts') ∨
      ∃ j last tail, joint = some j ∧ last.kind = j.kind ∧ tail.length ≤ j.more.length ∧
        afterSemicolons ts = last :: tail ∧
        afterSemicolons ts' = Parser.afterSemicolons j.more := by
  induction h with
  | nil h => exact .inl (.nil h)
  | @seam j h last semicolon tail hlast hsemi hlength =>
    have hne : last.kind ≠ .semicolon := hlast ▸ j.kind_ne nofun nofun
    exact .inr ⟨j, last, tail, h, hlast, hlength, by simp [Parser.afterSemicolons, hne],
      by simp [Parser.afterSemicolons, hsemi]⟩
  | @cons t t' ts ts' hshape hgoes hs ih =>
    have hsame := kind_eq_of_shape hshape
    by_cases hk : t.kind = .semicolon
    · simpa [Parser.afterSemicolons, hk, hsame ▸ hk] using ih
    · have hkept := Beside.cons hshape hgoes hs
      exact .inl (by simpa [Parser.afterSemicolons, hk, hsame ▸ hk] using hkept)

theorem Together.skipSemicolons_bind {S : γ → δ → Prop} {x : Parser γ} {y : Parser δ}
    (h : Together joint S x y) (hfails : FailsAtSeam joint x) :
    Together joint S (skipSemicolons >>= fun _ => x) (skipSemicolons >>= fun _ => y) := by
  intro ts ts' hs
  rw [bind_eq, bind_eq]
  change Agree joint S (x (afterSemicolons ts)) (y (afterSemicolons ts'))
  rcases hs.afterSemicolons with hs | ⟨j, last, tail, hj, hlast, -, hts, -⟩
  · exact h _ _ hs
  · rw [hts]
    exact .of_fails hj (hfails j last tail hj hlast) _

/-! ## Lists -/

/-- Items with commas between them. -/
theorem Together.commaList {R : α → β → Prop} {L : List α → List β → Prop} {x : Parser α}
    {y : Parser β} (hx : Together joint R x y) (hnil : L [] [])
    (hcons : ∀ {a b as bs}, R a b → L as bs → L (a :: as) (b :: bs)) {closing : TokenKind}
    (hclosing : isInner closing = true) {n n' : Nat} (hn : Room joint n n') :
    Together joint L (commaList x closing n) (commaList y closing n') := by
  induction n generalizing n' with
  | zero => exact .noTurns hn rfl
  | succ n ih =>
    obtain ⟨k, rfl, hk⟩ := hn.cases_succ
    refine .thenSame (.eat hclosing) fun closed => ?_
    split
    · exact .pure hnil
    · refine hx.bind fun a b hab => .thenSame (.eat rfl) fun comma => ?_
      split
      · exact (ih hk).bind fun as bs h => .pure (hcons hab h)
      · refine .bind (.expect ?_ ?_) fun _ _ _ => .pure (hcons hab hnil)
        · rintro rfl
          cases hclosing
        · rintro rfl
          cases hclosing

/-! ## Statements -/

/-- Parsers of expressions that read alike, and none from where the first text ends. -/
structure Reading (joint : Option Joint) (expr expr' : ExprParser) : Prop where
  together : ∀ level, Together joint (fun e e' => SameTree (.expr e) (.expr e')) (expr level)
    (expr' level)
  fails : ∀ level, FailsAtSeam joint (expr level)

variable {expr expr' : ExprParser} {n n' : Nat}

/-- Statements that are alike. -/
abbrev SameStatement (s s' : Statement) : Prop := SameTree (.statement s) (.statement s')

theorem together_varStatement (he : Reading joint expr expr') :
    Together joint SameStatement (varStatement expr) (varStatement expr') := by
  refine .bind (.expect (by decide) (by decide)) fun keyword keyword' _ => ?_
  refine .thenSame .identifier fun name => ?_
  refine .bind (.expect (by decide) (by decide)) fun _ _ _ => ?_
  exact .bind (he.together .lowest) fun _ _ hv => .pure (.var name hv trivial)

theorem together_expressionStatement (he : Reading joint expr expr') :
    Together joint SameStatement (expressionStatement expr) (expressionStatement expr') := by
  refine .bind .peekPosition fun p p' _ => .bind (he.together .lowest) fun e e' h => ?_
  have hplain : SameStatement (.expression e p) (.expression e' p') := .expression h trivial
  cases h with
  | assign op ht hv hp => exact .pure (.assignment op ht hv trivial)
  | _ => exact .pure hplain

theorem fails_expressionStatement (he : Reading joint expr expr') :
    FailsAtSeam joint (expressionStatement expr) := by
  intro j last tail hj hlast
  refine Fails.behind (x := peekPosition) rfl ?_
  exact (he.fails .lowest j last tail hj hlast).bind

theorem together_returnStatement (he : Reading joint expr expr') :
    Together joint SameStatement (returnStatement expr) (returnStatement expr') := by
  refine .bind (.expect (by decide) (by decide)) fun keyword keyword' _ => ?_
  have hnone : SameStatement (.returning none keyword.position)
      (.returning none keyword'.position) := .returning .noExprs trivial
  refine .peekKind_bind (fun kind => ?_) fun j hj ts ts' hs hkind => ?_
  · split
    · exact Together.here (.pure hnone) _
    · exact Together.here (.pure hnone) _
    · exact Together.here (.pure hnone) _
    · refine Together.here (.bind (he.together .lowest) fun e e' h => .pure ?_) _
      exact .returning (.exprs h .noExprs) trivial
  · -- A return may stand at the end of a text and before a semicolon, but before no other token.
    rcases j.ends with hend | hillegal
    · rw [hend]
      exact .ok hnone hs
    · rw [hillegal]
      refine .at_seam hj (fun j last tail hj hlast => ?_) hs hkind _
      exact (he.fails .lowest j last tail hj hlast).bind

theorem together_deleteStatement (he : Reading joint expr expr') :
    Together joint SameStatement (deleteStatement expr) (deleteStatement expr') := by
  refine .bind (.expect (by decide) (by decide)) fun keyword keyword' _ => ?_
  refine .bind (he.together .lowest) fun target target' h => ?_
  have htext : target.text = target'.text := h.sameText
  have hdelete : SameStatement (.delete target keyword.position)
      (.delete target' keyword'.position) := .delete h trivial
  cases h with
  | index => exact .pure hdelete
  | _ => exact .failAt _ _ (congrArg ParseCause.invalidDeleteTarget htext)

/-- The branches of an enum do not stop before their closing brace. -/
theorem fails_enumBranches (expr : ExprParser) (name : String) (seen : List String) (n : Nat) :
    FailsAtSeam joint (enumBranches expr name seen n) := by
  intro j last tail hj hlast
  cases n with
  | zero => exact ⟨_, _, rfl⟩
  | succ n =>
    have heat := eat_at_seam hlast (by decide : TokenKind.rightBrace ≠ .endOfText) (by decide) tail
    refine Fails.behind heat ?_
    exact (fails_expect (by decide) (by decide) j last tail hj hlast).bind

theorem together_enumBranches (he : Reading joint expr expr') (name : String)
    (seen : List String) (hn : Room joint n n') :
    Together joint (fun bs bs' => SameTree (.branches bs) (.branches bs'))
      (enumBranches expr name seen n) (enumBranches expr' name seen n') := by
  induction n generalizing n' seen with
  | zero => exact .noTurns (y := enumBranches expr' name seen) hn rfl
  | succ n ih =>
    obtain ⟨k, rfl, hk⟩ := hn.cases_succ
    refine .thenSame (.eat rfl) fun closed => ?_
    split
    · exact .pure .noBranches
    · refine .bind (.expect (by decide) (by decide)) fun _ _ _ => ?_
      refine .bind .peekPosition fun p p' _ => .thenSame .identifier fun branch => ?_
      split
      · exact .bind (.failAt p p' rfl) fun _ _ h => False.elim h
      · refine .bind (.expect (by decide) (by decide)) fun _ _ _ => ?_
        refine .bind (he.together .lowest) fun e e' h => ?_
        refine .eatSemicolon_bind ?_ ?_
        · exact .bind (ih (branch :: seen) hk) fun bs bs' hs => .pure (.branches branch h hs)
        · intro j last tail hj hlast
          exact (fails_enumBranches expr name _ n j last tail hj hlast).bind

theorem together_enumStatement (he : Reading joint expr expr') (hn : Room joint n n') :
    Together joint SameStatement (enumStatement n expr) (enumStatement n' expr') := by
  refine .bind (.expect (by decide) (by decide)) fun keyword keyword' _ => ?_
  refine .thenSame .identifier fun name => ?_
  refine .bind (.expect (by decide) (by decide)) fun _ _ _ => ?_
  exact .bind (together_enumBranches he name [] hn) fun bs bs' hs => .pure (.enum name hs trivial)

theorem together_bareStatement (he : Reading joint expr expr') (hn : Room joint n n') :
    Together joint SameStatement (bareStatement n expr) (bareStatement n' expr') := by
  refine .peekKind_bind (fun kind => ?_) fun j hj ts ts' hs hkind => ?_
  · split
    · exact (together_varStatement he).here _
    · exact (together_returnStatement he).here _
    · intro ts ts' hs hkind _
      cases hs with
      | nil => cases hkind
      | @seam j _ _ _ _ hlast =>
        exact absurd (hlast.symm.trans hkind) (j.kind_ne (by decide) (by decide))
      | cons h _ hs => exact .ok (.breaking trivial) hs
    · exact (together_deleteStatement he).here _
    · exact (together_enumStatement he hn).here _
    · exact (together_expressionStatement he).here _
  · rcases j.ends with hend | hillegal
    · rw [hend]
      exact .at_seam hj (fails_expressionStatement he) hs hkind _
    · rw [hillegal]
      exact .at_seam hj (fails_expressionStatement he) hs hkind _

theorem fails_bareStatement (he : Reading joint expr expr') (n : Nat) :
    FailsAtSeam joint (bareStatement n expr) := by
  intro j last tail hj hlast
  have hfails := fails_expressionStatement he j last tail hj hlast
  refine Fails.behind (x := peekKind) rfl ?_
  rw [show headKind (last :: tail) = j.kind from hlast]
  rcases j.ends with hend | hillegal
  · rw [hend]
    exact hfails
  · rw [hillegal]
    exact hfails

theorem fails_statement (he : Reading joint expr expr') (n : Nat) :
    FailsAtSeam joint (statement n expr) :=
  fun j last tail hj hlast => (fails_bareStatement he n j last tail hj hlast).bind

/-- A statement takes the semicolon behind it. At the end of the first text there is none, and the
second reading has taken the semicolon of the joint. -/
theorem together_statement (he : Reading joint expr expr') (hn : Room joint n n')
    (hs : Beside joint ts ts') :
    Agree joint SameStatement (statement n expr ts) (statement n' expr' ts') ∨
      ∃ j s s' last tail, joint = some j ∧ SameStatement s s' ∧ last.kind = j.kind ∧
        statement n expr ts = .ok s (last :: tail) ∧ statement n' expr' ts' = .ok s' j.more := by
  have hbare := together_bareStatement he hn ts ts' hs
  unfold statement
  rw [bind_eq, bind_eq]
  generalize bareStatement n expr ts = r at hbare
  generalize bareStatement n' expr' ts' = r' at hbare
  cases hbare with
  | error hjoint hc hs => exact .inl (.error hjoint hc hs)
  | failed hjoint => exact .inl (.failed hjoint _ _ _)
  | @ok s s' _ _ h hs =>
    dsimp only
    rw [bind_eq, bind_eq]
    cases hs with
    | nil hj => exact .inl (.ok h (.nil hj))
    | @seam j hj last semicolon tail hlast hsemi =>
      rw [eat_at_seam hlast (by decide) (by decide), eat_cons_of_eq hsemi]
      exact .inr ⟨j, s, s', last, tail, hj, h, hlast, rfl, rfl⟩
    | @cons t t' _ _ hshape hgoes hs =>
      have hsame := kind_eq_of_shape hshape
      by_cases hk : t.kind = .semicolon
      · rw [eat_cons_of_eq hk, eat_cons_of_eq (hsame ▸ hk)]
        exact .inl (.ok h hs)
      · rw [eat_cons_of_ne hk, eat_cons_of_ne (hsame ▸ hk)]
        exact .inl (.ok h (.cons hshape hgoes hs))

theorem together_statement_bind {S : γ → δ → Prop} (he : Reading joint expr expr')
    (hn : Room joint n n') {f : Statement → Parser γ} {g : Statement → Parser δ}
    (h : ∀ s s', SameStatement s s' → Together joint S (f s) (g s'))
    (hfails : ∀ s, FailsAtSeam joint (f s)) :
    Together joint S (statement n expr >>= f) (statement n' expr' >>= g) := by
  intro ts ts' hs
  rcases together_statement he hn hs with hboth | ⟨j, s, s', last, tail, hj, -, hlast, hok, -⟩
  · exact hboth.bind h
  · exact .of_fails hj (Fails.behind hok (hfails s j last tail hj hlast)) _

/-- The statements of a block behind the semicolons at its front, up to `next`. -/
def blockTurn (n : Nat) (expr : ExprParser) (next : Parser (List Statement)) :
    Parser (List Statement) := do
  if ← eat .rightBrace then
    return []
  if (← peekKind) = .endOfText then
    failUnexpected .rightBrace
  let first ← statement n expr
  return first :: (← next)

theorem blockStatements_succ (n : Nat) (expr : ExprParser) (left : Nat) :
    blockStatements n expr (left + 1) =
      skipSemicolons >>= fun _ => blockTurn n expr (blockStatements n expr left) := rfl

/-- A block does not stop before its closing brace. -/
theorem fails_blockTurn (he : Reading joint expr expr') (n : Nat)
    (next : Parser (List Statement)) : FailsAtSeam joint (blockTurn n expr next) := by
  intro j last tail hj hlast
  have heat := eat_at_seam hlast (by decide : TokenKind.rightBrace ≠ .endOfText) (by decide) tail
  refine Fails.behind heat (Fails.behind (x := peekKind) rfl ?_)
  by_cases hend : headKind (last :: tail) = .endOfText
  · rw [if_pos hend]
    exact Fails.bind ⟨_, _, rfl⟩
  · rw [if_neg hend]
    exact (fails_statement he n j last tail hj hlast).bind

theorem fails_blockStatements (he : Reading joint expr expr') (n left : Nat) :
    FailsAtSeam joint (blockStatements n expr left) := by
  intro j last tail hj hlast
  cases left with
  | zero => exact ⟨_, _, rfl⟩
  | succ left =>
    have hne : last.kind ≠ .semicolon := hlast ▸ j.kind_ne (by decide) (by decide)
    have hskip : skipSemicolons (last :: tail) = .ok () (last :: tail) := by
      simp [skipSemicolons, afterSemicolons, hne]
    rw [blockStatements_succ]
    exact Fails.behind hskip (fails_blockTurn he n _ j last tail hj hlast)

/-- Lists of statements that are alike. -/
abbrev SameStatements (ss ss' : List Statement) : Prop :=
  SameTree (.statements ss) (.statements ss')

theorem together_blockTurn (he : Reading joint expr expr') (hn : Room joint n n')
    {next next' : Parser (List Statement)} (h : Together joint SameStatements next next')
    (hfails : FailsAtSeam joint next) :
    Together joint SameStatements (blockTurn n expr next) (blockTurn n' expr' next') := by
  refine .thenSame (.eat rfl) fun closed => ?_
  split
  · exact .pure .noStatements
  · refine .peekKind_bind (fun kind => Together.here ?_ kind) fun j hj ts ts' hs hkind => ?_
    · split
      · exact .bind (.failUnexpected .rightBrace) fun _ _ h => False.elim h
      · refine together_statement_bind he hn (fun s s' hs => ?_) fun s j last tail hj hlast => ?_
        · exact .bind h fun ss ss' hss => .pure (.statements hs hss)
        · exact (hfails j last tail hj hlast).bind
    · refine .at_seam hj (fun j last tail hj hlast => ?_) hs hkind _
      split
      · exact Fails.bind ⟨_, _, rfl⟩
      · exact (fails_statement he n j last tail hj hlast).bind

theorem together_blockStatements (he : Reading joint expr expr') (hn : Room joint n n')
    {left left' : Nat} (hleft : Room joint left left') :
    Together joint SameStatements (blockStatements n expr left)
      (blockStatements n' expr' left') := by
  induction left generalizing left' with
  | zero => exact .noTurns (y := blockStatements n' expr') hleft rfl
  | succ left ih =>
    obtain ⟨k, rfl, hk⟩ := hleft.cases_succ
    rw [blockStatements_succ, blockStatements_succ]
    refine .skipSemicolons_bind ?_ (fails_blockTurn he n _)
    exact together_blockTurn he hn (ih hk) (fails_blockStatements he n left)

/-- Blocks with statements that are alike. -/
def SameBlock (b b' : Block) : Prop := SameStatements b.statements b'.statements

theorem together_block (he : Reading joint expr expr') (hn : Room joint n n') :
    Together joint SameBlock (block n expr) (block n' expr') := by
  refine .bind (.expect (by decide) (by decide)) fun brace brace' _ => ?_
  exact .bind (together_blockStatements he hn hn) fun ss ss' hs => .pure hs

/-! ## Expressions that start with a token of their own -/

/-- Expressions that are alike. -/
abbrev SameExpr (e e' : Expr) : Prop := SameTree (.expr e) (.expr e')

theorem SameBlock.oneSided {c c' : Expr} {b b' : Block} (hc : SameExpr c c') (hb : SameBlock b b')
    (p p' : Position) : SameExpr (.conditional c b none p) (.conditional c' b' none p') := by
  obtain ⟨ss, q⟩ := b
  obtain ⟨ss', q'⟩ := b'
  exact .oneSided hc hb trivial trivial

theorem SameBlock.twoSided {c c' : Expr} {b d b' d' : Block} (hc : SameExpr c c')
    (hb : SameBlock b b') (hd : SameBlock d d') (p p' : Position) :
    SameExpr (.conditional c b (some d) p) (.conditional c' b' (some d') p') := by
  obtain ⟨ss, q⟩ := b
  obtain ⟨ss', q'⟩ := b'
  obtain ⟨tt, r⟩ := d
  obtain ⟨tt', r'⟩ := d'
  exact .twoSided hc hb trivial hd trivial trivial

theorem together_conditional (he : Reading joint expr expr') (hn : Room joint n n')
    {left left' : Nat} (hleft : Room joint left left') (p p' : Position) :
    Together joint SameExpr (conditional n expr left p) (conditional n' expr' left' p') := by
  induction left generalizing left' p p' with
  | zero => exact .noTurns (y := fun left => conditional n' expr' left p') hleft rfl
  | succ left ih =>
    obtain ⟨k, rfl, hk⟩ := hleft.cases_succ
    refine .bind (he.together .lowest) fun c c' hc => ?_
    refine .bind (together_block he hn) fun b b' hb => .thenSame (.eat rfl) fun other => ?_
    split
    · refine .bind (.take? rfl) fun o o' ho => ?_
      cases ho with
      | none =>
        exact .bind (together_block he hn) fun d d' hd => .pure (hb.twoSided hc hd p p')
      | @some keyword keyword' _ =>
        refine .bind (ih hk keyword.position keyword'.position) fun e e' h => .pure ?_
        have hnested : SameBlock (.mk [.expression e keyword.position] keyword.position)
            (.mk [.expression e' keyword'.position] keyword'.position) :=
          .statements (.expression h trivial) .noStatements
        exact hb.twoSided hc hnested p p'
    · exact .pure (hb.oneSided hc p p')

theorem together_loopInitializer (he : Reading joint expr expr') :
    Together joint (fun o o' => SameStatements o.toList o'.toList) (loopInitializer expr)
      (loopInitializer expr') := by
  refine .peekKind_bind (fun kind => ?_) fun j hj ts ts' hs hkind => ?_
  · split
    · exact Together.here (.pure .noStatements) _
    · refine Together.here (.bind (together_varStatement he) fun s s' h => .pure ?_) _
      exact .statements h .noStatements
    · refine Together.here (.bind (together_expressionStatement he) fun s s' h => .pure ?_) _
      exact .statements h .noStatements
  · have hfails := fails_expressionStatement he
    rcases j.ends with hend | hillegal
    · rw [hend]
      refine .at_seam hj (fun j last tail hj hlast => ?_) hs hkind _
      exact (hfails j last tail hj hlast).bind
    · rw [hillegal]
      refine .at_seam hj (fun j last tail hj hlast => ?_) hs hkind _
      exact (hfails j last tail hj hlast).bind

theorem together_clause (he : Reading joint expr expr') {closing : TokenKind}
    (hend : closing ≠ .endOfText) (hillegal : closing ≠ .illegal) :
    Together joint (fun o o' => SameTree (.exprs o.toList) (.exprs o'.toList))
      (clause expr closing) (clause expr' closing) := by
  refine .peekKind_bind (fun kind => Together.here ?_ kind) fun j hj ts ts' hs hkind => ?_
  · split
    · exact .pure .noExprs
    · exact .bind (he.together .lowest) fun e e' h => .pure (.exprs h .noExprs)
  · rw [if_neg (j.kind_ne hend hillegal)]
    refine .at_seam hj (fun j last tail hj hlast => ?_) hs hkind _
    exact (he.fails .lowest j last tail hj hlast).bind

theorem together_loop (he : Reading joint expr expr') (hn : Room joint n n') (p p' : Position) :
    Together joint SameExpr (loop n expr p) (loop n' expr' p') := by
  refine .bind (.expect (by decide) (by decide)) fun _ _ _ => ?_
  refine .bind (together_loopInitializer he) fun i i' hi => ?_
  refine .bind (.expect (by decide) (by decide)) fun _ _ _ => ?_
  refine .bind (together_clause he (by decide) (by decide)) fun c c' hc => ?_
  refine .bind (.expect (by decide) (by decide)) fun _ _ _ => ?_
  refine .bind (together_clause he (by decide) (by decide)) fun u u' hu => ?_
  refine .bind (.expect (by decide) (by decide)) fun _ _ _ => ?_
  refine .bind (together_block he hn) fun b b' hb => .pure ?_
  obtain ⟨ss, q⟩ := b
  obtain ⟨ss', q'⟩ := b'
  exact .loop hi hc hu hb trivial trivial

/-- Parameters that are alike. -/
inductive SameParameters : List (Parameter × Position) → List (Parameter × Position) → Prop
  | nil : SameParameters [] []
  | required (name : String) (q q' : Position) {ps ps' : List (Parameter × Position)}
      (hs : SameParameters ps ps') :
      SameParameters ((.required name, q) :: ps) ((.required name, q') :: ps')
  | defaulted (name : String) {e e' : Expr} (h : SameExpr e e') (q q' : Position)
      {ps ps' : List (Parameter × Position)} (hs : SameParameters ps ps') :
      SameParameters ((.defaulted name e, q) :: ps) ((.defaulted name e', q') :: ps')

namespace SameParameters

variable {ps ps' : List (Parameter × Position)}

theorem cons {a b : Parameter × Position} (h : SameParameters [a] [b])
    (hs : SameParameters ps ps') : SameParameters (a :: ps) (b :: ps') := by
  cases h with
  | required name q q' => exact .required name q q' hs
  | defaulted name he q q' => exact .defaulted name he q q' hs

theorem alike (h : SameParameters ps ps') (p p' : Position) :
    SameTree (.parameters p (ps.map Prod.fst)) (.parameters p' (ps'.map Prod.fst)) := by
  induction h with
  | nil => exact .noParameters trivial
  | required name q q' hs ih => exact .required name ih
  | defaulted name h q q' hs ih => exact .defaulted name h ih

theorem firstRequired (h : SameParameters ps ps') :
    (ps.find? fun p => p.1.isRequired).map (fun p => p.1.name) =
      (ps'.find? fun p => p.1.isRequired).map (fun p => p.1.name) := by
  induction h with
  | nil => rfl
  | required name q q' hs ih => rfl
  | defaulted name h q q' hs ih => exact ih

/-- A required parameter behind a default has the same name in both readings. -/
theorem misplaced (h : SameParameters ps ps') :
    (requiredAfterDefault? ps).map Prod.fst = (requiredAfterDefault? ps').map Prod.fst := by
  induction h with
  | nil => rfl
  | required name q q' hs ih => exact ih
  | defaulted name h q q' hs ih =>
    have hfirst := hs.firstRequired
    simpa [requiredAfterDefault?, Function.comp_def] using hfirst

end SameParameters

theorem together_parameter (he : Reading joint expr expr') :
    Together joint (fun p p' => SameParameters [p] [p']) (parameter expr) (parameter expr') := by
  refine .bind .peekPosition fun q q' _ => .bind (.take? rfl) fun o o' ho => ?_
  cases ho with
  | some ht =>
    rename_i token token'
    have hname := literal_eq_of_shape ht
    refine .thenSame (.eat rfl) fun given => ?_
    split
    · refine .bind (he.together .assign) fun e e' h => .pure ?_
      rw [hname]
      exact .defaulted _ h q q' .nil
    · refine .pure ?_
      rw [hname]
      exact .required _ q q' .nil
  | none =>
    intro ts ts' hs
    cases hs with
    | nil hj => exact .errors rfl (.nil hj)
    | seam hj => exact .failed (by simp [hj]) _ _ _
    | cons h hgoes hs =>
      exact .errors (congrArg ParseCause.invalidParameter (literal_eq_of_shape h))
        (.cons h hgoes hs)

theorem together_functionLiteral (he : Reading joint expr expr') (hn : Room joint n n')
    (p p' : Position) :
    Together joint SameExpr (functionLiteral n expr p) (functionLiteral n' expr' p') := by
  refine .bind (.take? rfl) fun o o' ho => ?_
  have hname : o.map Token.literal = o'.map Token.literal := by
    cases ho with
    | none => rfl
    | some h => exact congrArg some (literal_eq_of_shape h)
  refine .bind (.expect (by decide) (by decide)) fun _ _ _ => ?_
  have hparameters : Together joint SameParameters (commaList (parameter expr) .rightParen n)
      (commaList (parameter expr') .rightParen n') :=
    (together_parameter he).commaList .nil .cons rfl hn
  refine hparameters.bind fun ps ps' hs => ?_
  have hmisplaced := hs.misplaced
  cases hr : requiredAfterDefault? ps with
  | none =>
    cases hr' : requiredAfterDefault? ps' with
    | none =>
      refine .bind (together_block he hn) fun b b' hb => .pure ?_
      obtain ⟨ss, q⟩ := b
      obtain ⟨ss', q'⟩ := b'
      rw [hname]
      exact .function _ (hs.alike p p') hb trivial trivial
    | some r' => simp [hr, hr'] at hmisplaced
  | some r =>
    cases hr' : requiredAfterDefault? ps' with
    | none => simp [hr, hr'] at hmisplaced
    | some r' =>
      have hsame : r.1 = r'.1 := by simpa [hr, hr'] using hmisplaced
      refine .bind (.failAt _ _ ?_) fun _ _ h => False.elim h
      exact congrArg ParseCause.requiredAfterDefault hsame

theorem together_exprs (he : Reading joint expr expr') {closing : TokenKind}
    (hclosing : isInner closing = true) (hn : Room joint n n') :
    Together joint (fun es es' => SameTree (.exprs es) (.exprs es'))
      (commaList (expr .lowest) closing n) (commaList (expr' .lowest) closing n') :=
  (he.together .lowest).commaList .noExprs .exprs hclosing hn

theorem together_hashPair (he : Reading joint expr expr') :
    Together joint (fun p p' => SameExpr p.1 p'.1 ∧ SameExpr p.2 p'.2) (hashPair expr)
      (hashPair expr') := by
  refine .bind (he.together .lowest) fun k k' hk => ?_
  refine .bind (.expect (by decide) (by decide)) fun _ _ _ => ?_
  exact .bind (he.together .lowest) fun v v' hv => .pure ⟨hk, hv⟩

theorem together_pairs (he : Reading joint expr expr') (hn : Room joint n n') :
    Together joint (fun ps ps' => SameTree (.pairs ps) (.pairs ps'))
      (commaList (hashPair expr) .rightBrace n) (commaList (hashPair expr') .rightBrace n') :=
  (together_hashPair he).commaList .noPairs (fun h hs => .pairs h.1 h.2 hs) rfl hn

/-- A token that stands for itself reads alike at every place. -/
inductive SameAtom : Option (Except ParseCause Expr) → Option (Except ParseCause Expr) → Prop
  | none : SameAtom none none
  | ok {e e' : Expr} (h : SameExpr e e') : SameAtom (some (.ok e)) (some (.ok e'))
  | error (cause : ParseCause) : SameAtom (some (.error cause)) (some (.error cause))

theorem sameAtom {t t' : Token} (h : t.shape = t'.shape) : SameAtom (atom? t) (atom? t') := by
  obtain ⟨kind, literal, p⟩ := t
  obtain ⟨kind', literal', p'⟩ := t'
  cases h
  unfold atom?
  dsimp only
  split
  · cases integerLiteral? literal with
    | none => exact .error _
    | some value => exact .ok (.integer value trivial)
  · cases floatLiteral? literal with
    | none => exact .error _
    | some value => exact .ok (.float value trivial)
  · exact .ok (.string literal trivial)
  · exact .ok (.boolean true trivial)
  · exact .ok (.boolean false trivial)
  · exact .ok (.null trivial)
  · exact .ok (.identifier literal trivial)
  · exact .error _
  · exact .none

theorem together_opened (he : Reading joint expr expr') (hn : Room joint n n') (kind : TokenKind)
    (p p' : Position) :
    Option.Rel (Together joint SameExpr) (opened? n expr kind p) (opened? n' expr' kind p') := by
  unfold opened?
  split
  · exact .some (.bind (he.together .unary) fun e e' h => .pure (.unary .negate h trivial))
  · exact .some (.bind (he.together .unary) fun e e' h => .pure (.unary .not h trivial))
  · refine .some (.bind (he.together .lowest) fun e e' h => ?_)
    exact .bind (.expect (by decide) (by decide)) fun _ _ _ => .pure h
  · exact .some (.bind (together_exprs he rfl hn) fun es es' hs => .pure (.array hs trivial))
  · exact .some (.bind (together_pairs he hn) fun ps ps' hs => .pure (.hash hs trivial))
  · exact .some (together_conditional he hn hn p p')
  · exact .some (together_loop he hn p p')
  · exact .some (together_functionLiteral he hn p p')
  · exact .some (.bind (he.together .unary) fun e e' h => .pure (.importFile h trivial))
  · exact .none

/-- No expression starts where a text ends. -/
theorem fails_operand (n : Nat) (expr : ExprParser) : FailsAtSeam joint (operand n expr) := by
  intro j last tail hj hlast
  obtain ⟨kind, literal, position⟩ := last
  change kind = j.kind at hlast
  rcases j.ends with hend | hillegal
  · rw [hlast, hend]
    exact ⟨_, _, rfl⟩
  · rw [hlast, hillegal]
    exact ⟨_, _, rfl⟩

theorem together_operand (he : Reading joint expr expr') (hn : Room joint n n') :
    Together joint SameExpr (operand n expr) (operand n' expr') := by
  intro ts ts' hs
  cases hs with
  | nil hj => exact .errors rfl (.nil hj)
  | @seam j hj last semicolon tail hlast =>
    exact .of_fails hj (fails_operand n expr j last tail hj hlast) _
  | @cons t t' ts ts' hshape hgoes hs =>
    unfold operand
    dsimp only
    have hatom := sameAtom hshape
    generalize atom? t = a at hatom
    generalize atom? t' = a' at hatom
    cases hatom with
    | ok h => exact .ok h hs
    | error cause => exact .errors rfl (.cons hshape hgoes hs)
    | none =>
      have hkind := kind_eq_of_shape hshape
      have hrule := together_opened he hn t.kind t.position t'.position
      rw [← hkind]
      dsimp only
      generalize opened? n expr t.kind t.position = o at hrule
      generalize opened? n' expr' t.kind t'.position = o' at hrule
      cases hrule with
      | none => exact .errors rfl (.cons hshape hgoes hs)
      | some h => exact h _ _ hs

/-! ## Expressions that go on behind an operand -/

theorem together_requireIdentifier {e e' : Expr} (h : SameExpr e e') (operator : String)
    (p p' : Position) :
    Together joint Eq (requireIdentifier e operator p) (requireIdentifier e' operator p') := by
  have htext : e.text = e'.text := h.sameText
  cases h with
  | identifier name => exact .pure rfl
  | _ => exact .failAt p p' (congrArg (ParseCause.expectedIdentifier operator) htext)

theorem together_assignment (he : Reading joint expr expr') {t t' : Expr} (h : SameExpr t t')
    (kind : TokenKind) (p p' : Position) :
    Together joint SameExpr (assignment expr t kind p) (assignment expr' t' kind p') := by
  have htext : t.text = t'.text := h.sameText
  have htarget : isTarget t = isTarget t' := by cases h <;> rfl
  unfold assignment
  rw [htarget]
  split
  · exact .bind (he.together _) fun v v' hv => .pure (.assign _ h hv trivial)
  · exact .failAt p p' (congrArg ParseCause.invalidAssignmentTarget htext)

theorem together_continued (he : Reading joint expr expr') (hn : Room joint n n') {l l' : Expr}
    (hl : SameExpr l l') {t t' : Token} (hshape : t.shape = t'.shape) :
    Together joint SameExpr (continued n expr l t) (continued n' expr' l' t') := by
  obtain ⟨kind, literal, p⟩ := t
  obtain ⟨kind', literal', p'⟩ := t'
  cases hshape
  unfold continued
  dsimp only
  split
  · exact .bind (he.together _) fun r r' hr => .pure (.binary _ hl hr trivial)
  · split
    · exact together_assignment he hl _ p p'
    · exact together_assignment he hl _ p p'
    · exact together_assignment he hl _ p p'
    · exact together_assignment he hl _ p p'
    · exact together_assignment he hl _ p p'
    · refine .bind (he.together .lowest) fun a a' ha => ?_
      refine .bind (.expect (by decide) (by decide)) fun _ _ _ => ?_
      exact .bind (he.together _) fun b b' hb => .pure (.ternary hl ha hb trivial)
    · exact .bind (he.together _) fun r r' hr => .pure (.elvis hl hr trivial)
    · refine .thenSame (together_requireIdentifier hl _ p p') fun name => .pure ?_
      exact .step .increment name trivial
    · refine .thenSame (together_requireIdentifier hl _ p p') fun name => .pure ?_
      exact .step .decrement name trivial
    · exact .bind (together_exprs he rfl hn) fun es es' hs => .pure (.call hl hs trivial)
    · refine .bind (he.together .lowest) fun k k' hk => ?_
      exact .bind (.expect (by decide) (by decide)) fun _ _ _ => .pure (.index hl hk trivial)
    · refine .thenSame .identifier fun method => ?_
      refine .bind (.expect (by decide) (by decide)) fun _ _ _ => ?_
      refine .bind (together_exprs he rfl hn) fun es es' hs => .pure ?_
      exact .methodCall method hl hs trivial
    · refine .thenSame (together_requireIdentifier hl _ p p') fun name => ?_
      exact .thenSame .identifier fun branch => .pure (.scopeAccess name branch trivial)
    · exact .failAt p p' rfl

theorem together_climb (he : Reading joint expr expr') (hn : Room joint n n') (level : Precedence)
    {k k' : Nat} (hk : Room joint k k') {l l' : Expr} (hl : SameExpr l l') :
    Together joint SameExpr (climb n expr level k l) (climb n' expr' level k' l') := by
  induction k generalizing k' l l' with
  | zero => exact .noTurns (y := fun k => climb n' expr' level k l') hk rfl
  | succ k ih =>
    obtain ⟨i, rfl, hi⟩ := hk.cases_succ
    refine .peekKind_bind (fun kind => ?_) fun j hj ts ts' hs hkind => ?_
    · split
      · intro ts ts' hs hkind hkind'
        refine Agree.bind (R := SameExpr) ?_ fun e e' h => ih hi h
        cases hs with
        | nil hj => exact .ok hl (.nil hj)
        | @seam j _ last semicolon tail hlast hsemi =>
          have hne : last.kind ≠ .semicolon := hlast ▸ j.kind_ne (by decide) (by decide)
          exact absurd (hkind.trans (hkind'.symm.trans hsemi)) hne
        | cons hshape _ hs => exact together_continued he hn hl hshape _ _ hs
      · exact Together.here (.pure hl) kind
    · -- Neither the end of a text nor a semicolon goes on from an operand.
      have hlow : Precedence.of j.kind = .lowest := by
        rcases j.ends with h | h <;> rw [h] <;> rfl
      have hstop (kind : TokenKind) (h : Precedence.of kind = .lowest) :
          ¬level < Precedence.of kind := by
        rw [h]
        exact Nat.not_lt_zero _
      rw [if_neg (hstop _ hlow), if_neg (hstop _ rfl)]
      exact .ok hl hs

/-- Expressions read alike. The induction is on the levels of nesting. -/
theorem reading_expression (hn : Room joint n n') :
    Reading joint (expression n) (expression n') := by
  induction n generalizing n' with
  | zero =>
    refine ⟨fun level => ?_, fun level j last tail _ _ => ⟨_, _, rfl⟩⟩
    exact .noTurns (y := fun n => expression n level) hn rfl
  | succ n ih =>
    obtain ⟨k, rfl, hk⟩ := hn.cases_succ
    refine ⟨fun level => ?_, fun level j last tail hj hlast => ?_⟩
    · exact .bind (together_operand (ih hk) hk) fun l l' hl => together_climb (ih hk) hk level hk hl
    · exact (fails_operand n (expression n) j last tail hj hlast).bind

/-! ## Whole statements -/

/-- Statements of whole texts. There are at least as many turns and levels as tokens on both sides,
so the readings have room for each other. -/
theorem parseStatement_beside (hs : Beside joint ts ts') :
    Agree joint SameStatement (parseStatement ts) (parseStatement ts') ∨
      ∃ j s s' last tail, joint = some j ∧ SameStatement s s' ∧ last.kind = j.kind ∧
        parseStatement ts = .ok s (last :: tail) ∧ parseStatement ts' = .ok s' j.more :=
  together_statement (reading_expression hs.room.succ) hs.room.succ hs

end Parser

end ScriptLang
